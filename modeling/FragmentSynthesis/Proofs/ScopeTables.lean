import FragmentSynthesis.Proofs.Declarations

namespace FragmentSynthesis.Proofs.ScopeTables

open FragmentSynthesis.NameSets
open FragmentSynthesis.OrderedMaps
open FragmentSynthesis.Proofs.Declarations
open FragmentSynthesis.Proofs.Mentions
open FragmentSynthesis.Scopes
open FragmentSynthesis.TypeName

section

variable {α β : Type} [DecidableEq α]

theorem put_of_notMem {key : α} (value : β) {entries : List (α × β)}
    (h : key ∉ entries.map Prod.fst) : put key value entries = entries ++ [(key, value)] := by
  induction entries with
  | nil => rfl
  | cons entry rest ih =>
      rw [List.map_cons, List.mem_cons, not_or] at h
      rw [put, if_neg (Ne.symm h.1), ih h.2, List.cons_append]

theorem entries_insert_of_notMem {m : OrderedMap α β} {key : α} (value : β) (h : key ∉ m.keys) :
    (m.insert key value).entries = m.entries ++ [(key, value)] :=
  put_of_notMem value h

theorem entries_insertAll {m : OrderedMap α β} {entries : List (α × β)}
    (h : (m.keys ++ entries.map Prod.fst).Nodup) :
    (m.insertAll entries).entries = m.entries ++ entries := by
  induction entries generalizing m with
  | nil => exact (List.append_nil _).symm
  | cons entry rest ih =>
      rw [List.map_cons, ← List.singleton_append, ← List.append_assoc] at h
      have hkey : entry.1 ∉ m.keys := by
        intro hmem
        have hinit := (List.nodup_append.mp h).1
        exact (List.nodup_append.mp hinit).2.2 _ hmem _ List.mem_cons_self rfl
      have hkeys : (m.insert entry.1 entry.2).keys = m.keys ++ [entry.1] := by
        rw [OrderedMap.keys_insert, if_neg hkey]
      rw [← hkeys] at h
      have hrest := ih h
      rw [entries_insert_of_notMem entry.2 hkey, List.append_assoc] at hrest
      exact hrest

theorem insertAll_insertAll (m : OrderedMap α β) (entries others : List (α × β)) :
    (m.insertAll entries).insertAll others = m.insertAll (entries ++ others) :=
  List.foldl_append.symm

end

theorem names_insert_of_notMem {s : NameSet} {name : String} (h : name ∉ s.names) :
    (s.insert name).names = s.names ++ [name] :=
  if_neg h

theorem names_union {s t : NameSet} (h : (s.names ++ t.names).Nodup) :
    (s.union t).names = s.names ++ t.names := by
  obtain ⟨names, hnames⟩ := t
  simp only [NameSet.union] at h ⊢
  clear hnames
  induction names generalizing s with
  | nil => exact (List.append_nil _).symm
  | cons name rest ih =>
      rw [← List.singleton_append, ← List.append_assoc] at h
      have hname : name ∉ s.names := by
        intro hmem
        have hinit := (List.nodup_append.mp h).1
        exact (List.nodup_append.mp hinit).2.2 _ hmem _ List.mem_cons_self rfl
      rw [← names_insert_of_notMem hname] at h
      have hrest := ih h
      rw [names_insert_of_notMem hname, List.append_assoc] at hrest
      exact hrest

/-- The tables of a scope, each as a list of names with their types. -/
def tables (s : Scope) : List (List (String × String)) :=
  [s.parameters.entries, s.locals.entries, s.counters.names.map fun name => (name, int),
    s.headerCounters.names.map fun name => (name, int), s.elements.entries]

/-- All declared names with their types, one table after the other. -/
def declarations (s : Scope) : List (String × String) :=
  (tables s).flatten

def declaredNames (s : Scope) : List String :=
  (declarations s).map Prod.fst

theorem declarations_eq (s : Scope) :
    declarations s = s.parameters.entries ++ (s.locals.entries ++
      ((s.counters.names ++ s.headerCounters.names).map (fun name => (name, int)) ++
        s.elements.entries)) := by
  simp only [declarations, tables, List.flatten_cons, List.flatten_nil, List.append_nil,
    List.map_append, List.append_assoc]

theorem declaredNames_eq (s : Scope) :
    declaredNames s = s.parameters.keys ++ (s.locals.keys ++
      ((s.counters.names ++ s.headerCounters.names) ++ s.elements.keys)) := by
  simp only [declaredNames, declarations_eq, List.map_append, List.map_map, Function.comp_def,
    List.map_id', OrderedMap.keys]

theorem mem_takenNames_iff (s : Scope) (name : String) :
    name ∈ s.takenNames ↔ name ∈ declaredNames s ∨ name ∈ s.inScope.names := by
  simp only [Scope.takenNames, declaredNames_eq, List.mem_append, or_assoc]

theorem entries_all {s : Scope} (h : (declaredNames s).Nodup) :
    s.all.entries = declarations s := by
  have hcounters : (s.counters.names ++ s.headerCounters.names).Nodup := by
    rw [declaredNames_eq] at h
    exact h.of_append_right.of_append_right.of_append_left
  have hall : s.all = s.parameters.insertAll (s.locals.entries ++
      ((s.counters.names ++ s.headerCounters.names).map (fun name => (name, int)) ++
        s.elements.entries)) := by
    rw [Scope.all, insertAll_insertAll, insertAll_insertAll, names_union hcounters]
  rw [declaredNames, declarations_eq, List.map_append] at h
  rw [hall, entries_insertAll h, declarations_eq]

theorem declarations_enter {s : Scope} {d : Mention} (h : d.name ∉ s.takenNames) :
    (declarations (enter s d)).Perm ((d.name, d.role.type) :: declarations s) := by
  simp only [mem_takenNames_iff, declaredNames_eq, List.mem_append, not_or] at h
  obtain ⟨⟨-, hlocals, ⟨hcounters, hheader⟩, helements⟩, -⟩ := h
  obtain ⟨role, name⟩ := d
  -- The name comes last in the table that its role chooses.
  rcases role with type | ⟨_ | _⟩ | type
  all_goals
    simp only [declarations, tables, enter, entries_insert_of_notMem, names_insert_of_notMem,
      hlocals, hcounters, hheader, helements, not_false_eq_true, Role.type, List.map_append,
      List.map_cons, List.map_nil, List.flatten_cons, List.flatten_nil, List.append_nil,
      List.append_assoc]
    grind

theorem mem_declarations_enter {s : Scope} {d : Mention} (h : d.name ∉ s.takenNames)
    (entry : String × String) :
    entry ∈ declarations (enter s d) ↔
      entry = (d.name, d.role.type) ∨ entry ∈ declarations s := by
  rw [(declarations_enter h).mem_iff, List.mem_cons]

theorem declaredNames_enter {s : Scope} {d : Mention} (h : d.name ∉ s.takenNames) :
    (declaredNames (enter s d)).Perm (d.name :: declaredNames s) :=
  (declarations_enter h).map Prod.fst

theorem getD_addToIndex (index : OrderedMap String (List String)) (name type other : String) :
    ((addToIndex index name type).get? other).getD [] =
      if type = other then (index.get? other).getD [] ++ [name]
      else (index.get? other).getD [] := by
  rw [addToIndex, OrderedMap.alter, OrderedMap.get?_insert]
  split
  · rename_i h
    rw [h]
    rfl
  · rfl

/-- The names of a type in a list of variables, in the order of the list. -/
def withType (type : String) (entries : List (String × String)) : List String :=
  (entries.filter fun entry => entry.2 == type).map Prod.fst

theorem mem_withType {type name : String} {entries : List (String × String)} :
    name ∈ withType type entries ↔ (name, type) ∈ entries := by
  simp [withType]

theorem nodup_withType {entries : List (String × String)} (h : (entries.map Prod.fst).Nodup)
    (type : String) : (withType type entries).Nodup :=
  h.sublist (List.filter_sublist.map _)

theorem getD_foldl_addToIndex (entries : List (String × String))
    (index : OrderedMap String (List String)) (type : String) :
    ((entries.foldl (fun index entry => addToIndex index entry.1 entry.2) index).get? type).getD [] =
      (index.get? type).getD [] ++ withType type entries := by
  induction entries generalizing index with
  | nil => exact (List.append_nil _).symm
  | cons entry rest ih =>
      rw [List.foldl_cons, ih, getD_addToIndex]
      by_cases h : entry.2 = type <;> simp [withType, h]

theorem namesOfType_reindexed (s : Scope) (type : String) :
    s.reindexed.namesOfType type = withType type s.all.entries :=
  getD_foldl_addToIndex s.all.entries OrderedMap.empty type

theorem namesOfType_enter (s : Scope) (d : Mention) (type : String) :
    (enter s d).namesOfType type =
      if d.role.type = type then s.namesOfType type ++ [d.name] else s.namesOfType type := by
  have hindex : (enter s d).typeIndex = addToIndex s.typeIndex d.name d.role.type := by
    unfold enter
    split <;> rfl
  rw [Scope.namesOfType, hindex, getD_addToIndex]
  rfl

/-- No name stands in two tables, nor twice in one, and the index lists the names of each type
once. -/
structure Consistent (s : Scope) : Prop where
  distinct : (declaredNames s).Nodup
  listedOnce : ∀ type, (s.namesOfType type).Nodup
  listed : ∀ type name, name ∈ s.namesOfType type ↔ (name, type) ∈ declarations s

theorem consistent_ofParameters (owner : String) (parameters : OrderedMap String String) :
    Consistent (Scope.ofParameters owner parameters) := by
  have hdeclarations :
      declarations (Scope.ofParameters owner parameters) = parameters.entries := by
    rw [declarations_eq]
    exact List.append_nil _
  have hnames (type : String) : (Scope.ofParameters owner parameters).namesOfType type =
      withType type parameters.entries :=
    getD_foldl_addToIndex parameters.entries OrderedMap.empty type
  constructor
  · rw [declaredNames, hdeclarations]
    exact parameters.nodup_keys
  · intro type
    rw [hnames]
    exact nodup_withType parameters.nodup_keys type
  · intro type name
    rw [hnames, mem_withType, hdeclarations]

theorem Consistent.enter {s : Scope} (hs : Consistent s) {d : Mention}
    (h : d.name ∉ s.takenNames) : Consistent (enter s d) := by
  have hname : d.name ∉ declaredNames s := fun hmem => h ((mem_takenNames_iff s _).mpr (.inl hmem))
  have hnew (type : String) : d.name ∉ s.namesOfType type := by
    intro hmem
    exact hname (List.mem_map_of_mem (f := Prod.fst) ((hs.listed type _).mp hmem))
  constructor
  · rw [(declaredNames_enter h).nodup_iff]
    exact List.nodup_cons.mpr ⟨hname, hs.distinct⟩
  · intro type
    rw [namesOfType_enter]
    split
    · rw [← List.concat_eq_append]
      exact (hs.listedOnce type).concat (hnew type)
    · exact hs.listedOnce type
  · intro type name
    rw [namesOfType_enter, mem_declarations_enter h, ← hs.listed, Prod.mk.injEq]
    split
    · rename_i htype
      rw [List.mem_append, List.mem_singleton, or_comm]
      simp [htype]
    · rename_i htype
      simp [Ne.symm htype]

theorem Consistent.declares {s t : Scope} {ds : List Mention} (hs : Consistent s)
    (h : Declares s ds t) : Consistent t := by
  induction h with
  | nil s => exact hs
  | cons hfree rest ih => exact ih (hs.enter hfree)

theorem mem_declarations_of_declares {s t : Scope} {ds : List Mention} (h : Declares s ds t)
    {entry : String × String} (hentry : entry ∈ declarations s) : entry ∈ declarations t := by
  induction h with
  | nil s => exact hentry
  | cons hfree rest ih => exact ih ((mem_declarations_enter hfree entry).mpr (.inr hentry))

theorem Consistent.reindexed {s : Scope} (hs : Consistent s) : Consistent s.reindexed where
  distinct := hs.distinct
  listedOnce type := by
    rw [namesOfType_reindexed]
    exact nodup_withType s.all.nodup_keys type
  listed type name := by
    rw [namesOfType_reindexed, mem_withType, entries_all hs.distinct]
    rfl

/-- The index made anew lists the same names. -/
theorem Consistent.namesOfType_perm {s : Scope} (hs : Consistent s) (type : String) :
    (s.reindexed.namesOfType type).Perm (s.namesOfType type) := by
  refine (List.perm_ext_iff_of_nodup (hs.reindexed.listedOnce type) (hs.listedOnce type)).mpr ?_
  intro name
  rw [hs.reindexed.listed, hs.listed]
  rfl

theorem Consistent.reserve {s : Scope} (hs : Consistent s) (name : String) :
    Consistent (s.reserve name) where
  distinct := hs.distinct
  listedOnce := hs.listedOnce
  listed := hs.listed

theorem Consistent.release {s : Scope} (hs : Consistent s) (name : String) :
    Consistent (s.release name) where
  distinct := hs.distinct
  listedOnce := hs.listedOnce
  listed := hs.listed

theorem Consistent.typeOf?_eq_some_iff {s : Scope} (hs : Consistent s) (name type : String) :
    s.typeOf? name = some type ↔ (name, type) ∈ declarations s := by
  rw [Scope.typeOf?, get?_eq_some_iff, entries_all hs.distinct]

theorem Consistent.disjoint {s : Scope} (hs : Consistent s) :
    (tables s).Pairwise fun table other => (table.map Prod.fst).Disjoint (other.map Prod.fst) := by
  have hnodup : ((tables s).map (List.map Prod.fst)).flatten.Nodup := by
    rw [← List.map_flatten]
    exact hs.distinct
  exact List.pairwise_map.mp (List.nodup_flatten.mp hnodup).2

end FragmentSynthesis.Proofs.ScopeTables
