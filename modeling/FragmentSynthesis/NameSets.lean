namespace FragmentSynthesis.NameSets

/-- Names without repetition, in the order in which they were added. -/
@[ext]
structure NameSet where
  names : List String
  nodup : names.Nodup

def NameSet.empty : NameSet := ⟨[], List.nodup_nil⟩

def NameSet.contains (s : NameSet) (name : String) : Bool :=
  decide (name ∈ s.names)

theorem nodup_insert {names : List String} (h : names.Nodup) (name : String) :
    (if name ∈ names then names else names ++ [name]).Nodup := by
  split
  · exact h
  · rename_i hname
    exact List.nodup_append.mpr ⟨h, by simp, by
      intro a ha b hb hab
      rw [List.mem_singleton] at hb
      exact hname (hb ▸ hab ▸ ha)⟩

/-- Adds a name at the end unless it is there. -/
def NameSet.insert (s : NameSet) (name : String) : NameSet :=
  ⟨if name ∈ s.names then s.names else s.names ++ [name], nodup_insert s.nodup name⟩

@[simp] theorem NameSet.mem_insert (s : NameSet) (name other : String) :
    other ∈ (s.insert name).names ↔ other ∈ s.names ∨ other = name := by
  simp only [NameSet.insert]
  split <;> simp_all

def NameSet.erase (s : NameSet) (name : String) : NameSet :=
  ⟨s.names.erase name, s.nodup.erase name⟩

@[simp] theorem NameSet.mem_erase (s : NameSet) (name other : String) :
    other ∈ (s.erase name).names ↔ other ≠ name ∧ other ∈ s.names :=
  s.nodup.mem_erase_iff

/-- The names of a list, each at its first place. -/
def NameSet.ofList (names : List String) : NameSet :=
  names.foldl NameSet.insert NameSet.empty

theorem NameSet.mem_foldl_insert (names : List String) (s : NameSet) (name : String) :
    name ∈ (names.foldl NameSet.insert s).names ↔ name ∈ s.names ∨ name ∈ names := by
  induction names generalizing s with
  | nil => simp
  | cons n ns ih => simp [ih, or_assoc]

@[simp] theorem NameSet.mem_ofList (names : List String) (name : String) :
    name ∈ (NameSet.ofList names).names ↔ name ∈ names := by
  simp [NameSet.ofList, NameSet.mem_foldl_insert, NameSet.empty]

/-- The names of the first set, and then those that only the second has. -/
def NameSet.union (s t : NameSet) : NameSet :=
  t.names.foldl NameSet.insert s

/-- The images of the names, those that become one being kept once. -/
def NameSet.map (f : String → String) (s : NameSet) : NameSet :=
  NameSet.ofList (s.names.map f)

/-- Names in the order of their characters. -/
def sortNames (names : List String) : List String :=
  names.mergeSort fun a b => decide (a ≤ b)

def NameSet.sorted (s : NameSet) : List String :=
  sortNames s.names

end FragmentSynthesis.NameSets
