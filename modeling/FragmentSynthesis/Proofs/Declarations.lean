import FragmentSynthesis.Proofs.Mentions
import FragmentSynthesis.Scopes
import Mathlib.Data.List.Nodup
import Mathlib.Tactic.Tauto

namespace FragmentSynthesis.Proofs.Declarations

open FragmentSynthesis.Faults
open FragmentSynthesis.NameSets
open FragmentSynthesis.OrderedMaps
open FragmentSynthesis.Proofs.Mentions
open FragmentSynthesis.Scopes
open FragmentSynthesis.TypeName

theorem lookup_eq_some_iff {α β : Type} [DecidableEq α] {entries : List (α × β)}
    (hkeys : (entries.map Prod.fst).Nodup) (key : α) (value : β) :
    lookup key entries = some value ↔ (key, value) ∈ entries := by
  induction entries with
  | nil => simp [lookup]
  | cons entry rest ih =>
      obtain ⟨k, v⟩ := entry
      simp only [List.map_cons, List.nodup_cons] at hkeys
      unfold lookup
      split
      · rename_i hk
        subst hk
        have hrest : (k, value) ∉ rest := fun h => hkeys.1 (List.mem_map_of_mem h)
        simp [hrest, eq_comm]
      · rename_i hk
        simp [ih hkeys.2, Ne.symm hk]

theorem get?_eq_some_iff {α β : Type} [DecidableEq α] (m : OrderedMap α β) (key : α) (value : β) :
    m.get? key = some value ↔ (key, value) ∈ m.entries :=
  lookup_eq_some_iff m.nodup_keys key value

theorem mem_keys_iff {α β : Type} [DecidableEq α] (m : OrderedMap α β) (key : α) :
    key ∈ m.keys ↔ ∃ value, m.get? key = some value := by
  simp [OrderedMap.keys, get?_eq_some_iff]

theorem mem_keys_insert {α β : Type} [DecidableEq α] (m : OrderedMap α β) (key k : α) (value : β) :
    k ∈ (m.insert key value).keys ↔ k ∈ m.keys ∨ k = key := by
  rw [OrderedMap.keys_insert]
  split <;> simp_all

theorem mem_keys_insertAll {α β : Type} [DecidableEq α] (entries : List (α × β))
    (m : OrderedMap α β) (k : α) :
    k ∈ (m.insertAll entries).keys ↔ k ∈ m.keys ∨ k ∈ entries.map Prod.fst := by
  induction entries generalizing m with
  | nil => simp [OrderedMap.insertAll]
  | cons entry rest ih =>
      have h := ih (m.insert entry.1 entry.2)
      simp only [OrderedMap.insertAll] at h
      simp [OrderedMap.insertAll, h, mem_keys_insert, or_assoc]

theorem perm_flatten_alter {α β : Type} [DecidableEq α] (m : OrderedMap α (List β)) (key : α)
    (x : β) : (m.alter key [] (· ++ [x])).values.flatten.Perm (m.values.flatten ++ [x]) := by
  suffices hentries : ∀ entries : List (α × List β),
      ((put key ((lookup key entries).getD [] ++ [x]) entries).map Prod.snd).flatten.Perm
        ((entries.map Prod.snd).flatten ++ [x]) from hentries m.entries
  intro entries
  induction entries with
  | nil => exact List.Perm.refl _
  | cons entry rest ih =>
      obtain ⟨k, xs⟩ := entry
      by_cases hk : k = key
      · simp only [put, lookup, if_pos hk, Option.getD_some, List.map_cons, List.flatten_cons,
          List.append_assoc]
        exact List.perm_append_comm.append_left xs
      · simp only [put, lookup, if_neg hk, List.map_cons, List.flatten_cons, List.append_assoc]
        exact ih.append_left xs

/-- The scope after a name was declared in it. -/
def enter (s : Scope) (d : Mention) : Scope :=
  let s := { s with
    inScope := s.inScope.insert d.name
    typeIndex := addToIndex s.typeIndex d.name d.role.type }
  match d.role with
  | .variable type => { s with locals := s.locals.insert d.name type }
  | .counter true => { s with headerCounters := s.headerCounters.insert d.name }
  | .counter false => { s with counters := s.counters.insert d.name }
  | .element type => { s with elements := s.elements.insert d.name type }

theorem addLocal_eq {s : Scope} {name : String} (type : String) (h : name ∉ s.takenNames) :
    s.addLocal name type = .ok (enter s ⟨.variable type, name⟩) := by
  simp [Scope.addLocal, Scope.declare, Scope.isDeclared, h, Except.map, enter, Role.type]

theorem addCounter_eq {s : Scope} {name : String} (inHeader : Bool) (h : name ∉ s.takenNames) :
    s.addCounter name inHeader = .ok (enter s ⟨.counter inHeader, name⟩) := by
  cases inHeader <;>
    simp [Scope.addCounter, Scope.declare, Scope.isDeclared, h, Except.map, enter, Role.type]

theorem addElement_eq {s : Scope} {name : String} (type : String) (h : name ∉ s.takenNames) :
    s.addElement name type = .ok (enter s ⟨.element type, name⟩) := by
  simp [Scope.addElement, Scope.declare, Scope.isDeclared, h, Except.map, enter, Role.type]

@[simp] theorem parameters_enter (s : Scope) (d : Mention) :
    (enter s d).parameters = s.parameters := by
  unfold enter
  split <;> rfl

@[simp] theorem mem_takenNames_enter (s : Scope) (d : Mention) (name : String) :
    name ∈ (enter s d).takenNames ↔ name ∈ s.takenNames ∨ name = d.name := by
  unfold enter
  split <;> simp only [Scope.takenNames, List.mem_append, mem_keys_insert, NameSet.mem_insert] <;>
    tauto

theorem mem_takenNames_of_parameter {s : Scope} {name type : String}
    (h : s.parameters.get? name = some type) : name ∈ s.takenNames := by
  simp only [Scope.takenNames, List.mem_append, mem_keys_iff]
  exact .inl (.inl (.inl (.inl (.inl ⟨type, h⟩))))

/-- A name has its place among the locals, counters or elements of a scope. -/
def Holds (s : Scope) (d : Mention) : Prop :=
  match d.role with
  | .variable type => s.locals.get? d.name = some type
  | .counter true => d.name ∈ s.headerCounters.names
  | .counter false => d.name ∈ s.counters.names
  | .element type => s.elements.get? d.name = some type

theorem Holds.mem_takenNames {s : Scope} {d : Mention} (h : Holds s d) :
    d.name ∈ s.takenNames := by
  simp only [Scope.takenNames, List.mem_append, mem_keys_iff]
  unfold Holds at h
  split at h
  · exact .inl (.inl (.inl (.inl (.inr ⟨_, h⟩))))
  · exact .inl (.inl (.inr h))
  · exact .inl (.inl (.inl (.inr h)))
  · exact .inl (.inr ⟨_, h⟩)

theorem holds_enter_of_ne {s : Scope} {d x : Mention} (hne : x.name ≠ d.name) :
    Holds (enter s d) x ↔ Holds s x := by
  unfold enter
  split <;> unfold Holds <;> split <;> simp [hne, Ne.symm hne]

theorem holds_enter_self {s : Scope} {d : Mention} (h : d.name ∉ s.takenNames) (role : Role) :
    Holds (enter s d) ⟨role, d.name⟩ ↔ role = d.role := by
  have hnew (r : Role) : ¬ Holds s ⟨r, d.name⟩ := fun hr => h hr.mem_takenNames
  have hlocal (type : String) : s.locals.get? d.name ≠ some type := hnew (.variable type)
  have helement (type : String) : s.elements.get? d.name ≠ some type := hnew (.element type)
  have hheader : d.name ∉ s.headerCounters.names := hnew (.counter true)
  have hcounter : d.name ∉ s.counters.names := hnew (.counter false)
  unfold enter
  rcases d with ⟨_ | ⟨_ | _⟩ | _, name⟩ <;> rcases role with _ | ⟨_ | _⟩ | _ <;>
    simp_all [Holds, eq_comm]

theorem holds_enter {s : Scope} {d : Mention} (h : d.name ∉ s.takenNames) (x : Mention) :
    Holds (enter s d) x ↔ Holds s x ∨ x = d := by
  by_cases hname : x.name = d.name
  · obtain ⟨role, name⟩ := x
    subst hname
    have hnot : ¬ Holds s ⟨role, d.name⟩ := fun hx => h hx.mem_takenNames
    simp only [holds_enter_self h, hnot, false_or]
    constructor
    · intro hrole
      rw [hrole]
    · intro hx
      exact congrArg Mention.role hx
  · have hx : x ≠ d := fun hx => hname (congrArg Mention.name hx)
    simp only [holds_enter_of_ne hname, hx, or_false]

/-- One scope comes from another by declarations, each of a name that is free at that point. -/
inductive Declares : Scope → List Mention → Scope → Prop
  | nil (s : Scope) : Declares s [] s
  | cons {s t : Scope} {d : Mention} {ds : List Mention} (hfree : d.name ∉ s.takenNames)
      (rest : Declares (enter s d) ds t) : Declares s (d :: ds) t

theorem Declares.append {s t u : Scope} {ds es : List Mention} (h : Declares s ds t)
    (h' : Declares t es u) : Declares s (ds ++ es) u := by
  induction h with
  | nil s => exact h'
  | cons hfree rest ih => exact .cons hfree (ih h')

theorem Declares.parameters_eq {s t : Scope} {ds : List Mention} (h : Declares s ds t) :
    t.parameters = s.parameters := by
  induction h with
  | nil s => rfl
  | cons hfree rest ih => rw [ih, parameters_enter]

theorem Declares.mem_takenNames {s t : Scope} {ds : List Mention} (h : Declares s ds t)
    (name : String) :
    name ∈ t.takenNames ↔ name ∈ s.takenNames ∨ name ∈ ds.map Mention.name := by
  induction h with
  | nil s => simp
  | cons hfree rest ih => simp [ih, or_assoc]

theorem Declares.holds {s t : Scope} {ds : List Mention} (h : Declares s ds t) (x : Mention) :
    Holds t x ↔ Holds s x ∨ x ∈ ds := by
  induction h with
  | nil s => simp
  | cons hfree rest ih => rw [ih, holds_enter hfree, List.mem_cons, or_assoc]

theorem Declares.free {s t : Scope} {ds : List Mention} (h : Declares s ds t) :
    ∀ d ∈ ds, d.name ∉ s.takenNames := by
  induction h with
  | nil s => simp
  | cons hfree rest ih =>
      intro d hd
      rcases List.mem_cons.mp hd with rfl | hd
      · exact hfree
      · intro htaken
        exact ih d hd ((mem_takenNames_enter _ _ _).mpr (.inl htaken))

theorem Declares.nodup_names {s t : Scope} {ds : List Mention} (h : Declares s ds t) :
    (ds.map Mention.name).Nodup := by
  induction h with
  | nil s => exact List.nodup_nil
  | cons hfree rest ih =>
      rw [List.map_cons, List.nodup_cons]
      constructor
      · intro hmem
        obtain ⟨d, hd, hname⟩ := List.mem_map.mp hmem
        exact rest.free d hd ((mem_takenNames_enter _ _ _).mpr (.inr hname))
      · exact ih

theorem Declares.holds_unique {s t : Scope} {ds : List Mention} (h : Declares s ds t)
    {x y : Mention} (hx : Holds t x) (hy : Holds t y) (hname : x.name = y.name)
    (hfree : x.name ∉ s.takenNames) : x = y := by
  have hxs : x ∈ ds := ((h.holds x).mp hx).resolve_left fun hold => hfree hold.mem_takenNames
  have hys : y ∈ ds := ((h.holds y).mp hy).resolve_left fun hold =>
    hfree (hname ▸ hold.mem_takenNames)
  exact List.inj_on_of_nodup_map h.nodup_names hxs hys hname

end FragmentSynthesis.Proofs.Declarations
