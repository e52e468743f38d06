import FragmentSynthesis.Base36

namespace FragmentSynthesis.TokenTables

open FragmentSynthesis.Base36

/-- The distinct keys in the order in which they were first seen. -/
structure TokenTable where
  keys : List String
  nodup : keys.Nodup

def TokenTable.empty : TokenTable := ⟨[], List.nodup_nil⟩

def TokenTable.size (t : TokenTable) : Nat :=
  t.keys.length

/-- The key has a token. -/
def TokenTable.contains (t : TokenTable) (key : String) : Bool :=
  decide (key ∈ t.keys)

theorem nodup_addKey {keys : List String} (h : keys.Nodup) (key : String) :
    (if key ∈ keys then keys else keys ++ [key]).Nodup := by
  split
  · exact h
  · rename_i hkey
    exact List.nodup_append.mpr ⟨h, by simp, by
      intro a ha b hb hab
      rw [List.mem_singleton] at hb
      exact hkey (hb ▸ hab ▸ ha)⟩

/-- Adds a key behind the others unless it is there. -/
def TokenTable.add (t : TokenTable) (key : String) : TokenTable :=
  ⟨if key ∈ t.keys then t.keys else t.keys ++ [key], nodup_addKey t.nodup key⟩

/-- The token a key has, or gets when it is added next. -/
def TokenTable.token (t : TokenTable) (key : String) : String :=
  numeral (t.keys.idxOf key)

@[simp] theorem TokenTable.mem_add (t : TokenTable) (key other : String) :
    other ∈ (t.add key).keys ↔ other ∈ t.keys ∨ other = key := by
  simp only [TokenTable.add]
  split <;> simp_all

/-- Adding keys never changes the token of a key that is there. -/
theorem TokenTable.token_add (t : TokenTable) (key other : String) (h : other ∈ t.keys) :
    (t.add key).token other = t.token other := by
  simp only [TokenTable.token, TokenTable.add]
  split
  · rfl
  · rw [List.idxOf_append, if_pos h]

@[simp] theorem TokenTable.token_add_self (t : TokenTable) (key : String) :
    (t.add key).token key = t.token key := by
  simp only [TokenTable.token, TokenTable.add]
  split
  · rfl
  · rename_i h
    rw [List.idxOf_append, if_neg h, List.idxOf_eq_length h]
    simp

/-- The table of some keys, each at its first place. -/
def TokenTable.ofList (keys : List String) : TokenTable :=
  keys.foldl TokenTable.add TokenTable.empty

end FragmentSynthesis.TokenTables
