/-!
Finite maps that keep the order in which their keys were first inserted. Giving a key a new value
leaves it at its place.
-/

namespace FragmentSynthesis.OrderedMaps

variable {α β γ : Type}

/-- The first value listed for a key. -/
def lookup [DecidableEq α] (key : α) : List (α × β) → Option β
  | [] => none
  | (k, v) :: rest => if k = key then some v else lookup key rest

/-- Replaces the value of a key, or appends the key at the end. -/
def put [DecidableEq α] (key : α) (value : β) : List (α × β) → List (α × β)
  | [] => [(key, value)]
  | (k, v) :: rest => if k = key then (k, value) :: rest else (k, v) :: put key value rest

theorem map_fst_put [DecidableEq α] (key : α) (value : β) (entries : List (α × β)) :
    (put key value entries).map Prod.fst =
      if key ∈ entries.map Prod.fst then entries.map Prod.fst
      else entries.map Prod.fst ++ [key] := by
  induction entries with
  | nil => simp [put]
  | cons entry rest ih =>
      by_cases h : entry.1 = key
      · simp [put, h]
      · simp only [put, if_neg h, List.map_cons, ih, List.mem_cons, Ne.symm h, false_or]
        split <;> rfl

theorem nodup_map_fst_put [DecidableEq α] (key : α) (value : β) {entries : List (α × β)}
    (h : (entries.map Prod.fst).Nodup) : ((put key value entries).map Prod.fst).Nodup := by
  rw [map_fst_put]
  split
  · exact h
  · rename_i hkey
    exact List.nodup_append.mpr ⟨h, by simp, by
      intro a ha b hb hab
      rw [List.mem_singleton] at hb
      exact hkey (hb ▸ hab ▸ ha)⟩

theorem lookup_put [DecidableEq α] (key k : α) (value : β) (entries : List (α × β)) :
    lookup k (put key value entries) = if key = k then some value else lookup k entries := by
  induction entries with
  | nil => simp [put, lookup]
  | cons entry rest ih =>
      by_cases h : entry.1 = key
      · by_cases hk : key = k <;> simp [put, lookup, h, hk]
      · by_cases hk : entry.1 = k
        · have : key ≠ k := fun e => h (hk.trans e.symm)
          simp only [put, if_neg h, lookup, if_pos hk, if_neg this]
        · simp only [put, if_neg h, lookup, if_neg hk, ih]

/-- A finite map whose keys are in the order in which they were first inserted. -/
@[ext]
structure OrderedMap (α β : Type) where
  entries : List (α × β)
  nodup_keys : (entries.map Prod.fst).Nodup

def OrderedMap.empty : OrderedMap α β := ⟨[], List.nodup_nil⟩

def OrderedMap.keys (m : OrderedMap α β) : List α :=
  m.entries.map Prod.fst

def OrderedMap.values (m : OrderedMap α β) : List β :=
  m.entries.map Prod.snd

def OrderedMap.size (m : OrderedMap α β) : Nat :=
  m.entries.length

variable [DecidableEq α]

/-- The value under a key. -/
def OrderedMap.get? (m : OrderedMap α β) (key : α) : Option β :=
  lookup key m.entries

def OrderedMap.contains (m : OrderedMap α β) (key : α) : Bool :=
  decide (key ∈ m.keys)

/-- Puts a value under a key. A key that is there keeps its place, a new one comes last. -/
def OrderedMap.insert (m : OrderedMap α β) (key : α) (value : β) : OrderedMap α β :=
  ⟨put key value m.entries, nodup_map_fst_put key value m.nodup_keys⟩

@[simp] theorem OrderedMap.get?_insert (m : OrderedMap α β) (key k : α) (value : β) :
    (m.insert key value).get? k = if key = k then some value else m.get? k :=
  lookup_put key k value m.entries

theorem OrderedMap.keys_insert (m : OrderedMap α β) (key : α) (value : β) :
    (m.insert key value).keys = if key ∈ m.keys then m.keys else m.keys ++ [key] :=
  map_fst_put key value m.entries

/-- Inserts further entries one after the other. -/
def OrderedMap.insertAll (m : OrderedMap α β) (entries : List (α × β)) : OrderedMap α β :=
  entries.foldl (fun m entry => m.insert entry.1 entry.2) m

/-- The map of some entries, where a later entry for a key replaces its value. -/
def OrderedMap.ofList (entries : List (α × β)) : OrderedMap α β :=
  OrderedMap.empty.insertAll entries

/-- The map with every key replaced. Keys that become equal share the first one's place and the
last one's value. -/
def OrderedMap.mapKeys (f : α → α) (m : OrderedMap α β) : OrderedMap α β :=
  OrderedMap.ofList (m.entries.map fun entry => (f entry.1, entry.2))

/-- Applies a function to the value of a key, or to a default where the key is new. -/
def OrderedMap.alter (m : OrderedMap α β) (key : α) (default : β) (f : β → β) :
    OrderedMap α β :=
  m.insert key (f ((m.get? key).getD default))

end FragmentSynthesis.OrderedMaps
