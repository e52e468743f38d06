import FragmentSynthesis.Proofs.ComposedRenamings
import FragmentSynthesis.Proofs.ScopeTables
import Mathlib.Data.List.GetD
import Mathlib.Data.List.Nodup
import Mathlib.Data.Set.Function

namespace FragmentSynthesis.Proofs.InvertedRenamings

open FragmentSynthesis.Expression
open FragmentSynthesis.Faults
open FragmentSynthesis.NameSets
open FragmentSynthesis.OrderedMaps
open FragmentSynthesis.Programs
open FragmentSynthesis.Proofs.ComposedRenamings
open FragmentSynthesis.Proofs.ImageMeasures
open FragmentSynthesis.Proofs.KnownFragments
open FragmentSynthesis.Proofs.NameImages
open FragmentSynthesis.Proofs.ScopeTables
open FragmentSynthesis.Renaming
open FragmentSynthesis.Scopes
open FragmentSynthesis.Statement
open FragmentSynthesis.StoppingChanges
open FragmentSynthesis.Traversal
open FragmentSynthesis.UsedNames
open FragmentSynthesis.Weight

section

variable {f g : String → String}

theorem entries_mapKeys {m : OrderedMap String String} (h : Set.InjOn f {key | key ∈ m.keys}) :
    (m.mapKeys f).entries = m.entries.map fun entry => (f entry.1, entry.2) := by
  have hkeys : (m.entries.map fun entry => (f entry.1, entry.2)).map Prod.fst = m.keys.map f := by
    rw [OrderedMap.keys, List.map_map, List.map_map]
    rfl
  have hnodup : (m.keys.map f).Nodup := by
    apply List.Nodup.map_on _ m.nodup_keys
    intro key hkey other hother
    exact h hkey hother
  rw [← hkeys] at hnodup
  exact entries_insertAll (m := OrderedMap.empty) hnodup

theorem keys_mapKeys {m : OrderedMap String String} (h : Set.InjOn f {key | key ∈ m.keys}) :
    (m.mapKeys f).keys = m.keys.map f := by
  rw [OrderedMap.keys, entries_mapKeys h, OrderedMap.keys, List.map_map, List.map_map]
  rfl

theorem names_map {s : NameSet} (h : Set.InjOn f {name | name ∈ s.names}) :
    (s.map f).names = s.names.map f := by
  have hnodup : (s.names.map f).Nodup := by
    apply List.Nodup.map_on _ s.nodup
    intro name hname other hother
    exact h hname hother
  exact names_union (s := NameSet.empty) (t := ⟨s.names.map f, hnodup⟩) hnodup

/-- The names in each container of a scope, those in scope last. -/
def containers (s : Scope) : List (List String) :=
  [s.parameters.keys, s.locals.keys, s.counters.names, s.headerCounters.names, s.elements.keys,
    s.inScope.names]

/-- The names in one of the containers, and none if there is no such container. -/
def container (s : Scope) (i : Nat) : List String :=
  (containers s).getD i []

theorem takenNames_of_container {s : Scope} :
    ∀ names ∈ containers s, {name | name ∈ names} ⊆ {name | name ∈ s.takenNames} := by
  have htaken : s.takenNames = (containers s).flatten := by
    simp only [Scope.takenNames, containers, List.flatten_cons, List.flatten_nil, List.append_nil,
      List.append_assoc]
  intro names hnames name hname
  rw [Set.mem_ofPred_eq, htaken]
  exact List.mem_flatten.mpr ⟨names, hnames, hname⟩

/-- A renaming that keeps the names apart replaces them in each container, one by one. -/
theorem containers_rename {s : Scope} (h : Set.InjOn f {name | name ∈ s.takenNames}) :
    containers (s.rename f) = (containers s).map (List.map f) := by
  have hinjective : ∀ names ∈ containers s, Set.InjOn f {name | name ∈ names} :=
    fun names hnames => h.mono (takenNames_of_container names hnames)
  simp only [containers, List.forall_mem_cons] at hinjective
  obtain ⟨hparameters, hlocals, hcounters, hheader, helements, hscope, -⟩ := hinjective
  simp only [containers, Scope.rename, List.map_cons, List.map_nil]
  rw [keys_mapKeys hparameters, keys_mapKeys hlocals, names_map hcounters, names_map hheader,
    keys_mapKeys helements, names_map hscope]

theorem container_rename {s : Scope} (h : Set.InjOn f {name | name ∈ s.takenNames}) (i : Nat) :
    container (s.rename f) i = (container s i).map f := by
  rw [container, containers_rename h]
  exact List.getD_map (containers s) [] (List.map f)

theorem mem_takenNames_of_mem_container {s : Scope} {i : Nat} {name : String}
    (h : name ∈ container s i) : name ∈ s.takenNames := by
  rw [container, List.getD_eq_getElem?_getD] at h
  cases hi : (containers s)[i]? with
  | none =>
      rw [hi] at h
      cases h
  | some names =>
      rw [hi] at h
      exact takenNames_of_container names (List.mem_of_getElem? hi) h

theorem injOn_images {names : List String} (h : Set.LeftInvOn g f {name | name ∈ names}) :
    Set.InjOn g {name | name ∈ names.map f} := by
  rintro image himage other hother heq
  obtain ⟨name, hname, rfl⟩ := List.mem_map.mp himage
  obtain ⟨name', hname', rfl⟩ := List.mem_map.mp hother
  rw [h hname, h hname'] at heq
  rw [heq]

theorem mapKeys_mapKeys {m : OrderedMap String String}
    (h : Set.LeftInvOn g f {key | key ∈ m.keys}) : (m.mapKeys f).mapKeys g = m := by
  have hinjective := injOn_images h
  rw [← keys_mapKeys h.injOn] at hinjective
  apply OrderedMap.ext
  rw [entries_mapKeys hinjective, entries_mapKeys h.injOn, List.map_map]
  calc
    _ = m.entries.map id := by
      apply List.map_congr_left
      intro entry hentry
      have hkey : entry.1 ∈ m.keys := List.mem_map_of_mem hentry
      exact Prod.ext (h hkey) rfl
    _ = m.entries := List.map_id m.entries

theorem map_map {s : NameSet} (h : Set.LeftInvOn g f {name | name ∈ s.names}) :
    (s.map f).map g = s := by
  have hinjective := injOn_images h
  rw [← names_map h.injOn] at hinjective
  apply NameSet.ext
  rw [names_map hinjective, names_map h.injOn, List.map_map]
  calc
    _ = s.names.map id := List.map_congr_left fun name hname => h hname
    _ = s.names := List.map_id s.names

theorem rename_rename {s : Scope} (h : Set.LeftInvOn g f {name | name ∈ s.takenNames}) :
    (s.rename f).rename g = s := by
  have hinverse : ∀ names ∈ containers s, Set.LeftInvOn g f {name | name ∈ names} :=
    fun names hnames => h.mono (takenNames_of_container names hnames)
  simp only [containers, List.forall_mem_cons] at hinverse
  obtain ⟨hparameters, hlocals, hcounters, hheader, helements, hscope, -⟩ := hinverse
  simp only [Scope.rename]
  rw [mapKeys_mapKeys hparameters, mapKeys_mapKeys hlocals, map_map hcounters, map_map hheader,
    mapKeys_mapKeys helements, map_map hscope]

theorem mapNamesInNode_mapNamesInNode {x : Node}
    (h : Set.LeftInvOn g f {name | name ∈ namesInNode x}) :
    mapNamesInNode g (mapNamesInNode f x) = x := by
  rw [mapNamesInNode_comp]
  calc
    _ = mapNamesInNode id x := mapNamesInNode_congr x fun name hname => h hname
    _ = x := mapNamesInNode_id x

theorem mapNamesInProgram_mapNamesInProgram {p : Program}
    (h : Set.LeftInvOn g f {name | name ∈ namesInProgram p}) :
    mapNamesInProgram g (mapNamesInProgram f p) = p := by
  obtain ⟨hscope, htree⟩ := List.forall_mem_append.mp h
  obtain ⟨hbody, hresult⟩ := List.forall_mem_append.mp htree
  have hstatements : mapNamesInBlock g (mapNamesInBlock f p.statements) = p.statements := by
    rw [mapNamesInBlock_comp]
    calc
      _ = mapNamesInBlock id p.statements := mapNamesInBlock_congr p.statements hbody
      _ = p.statements := mapNamesInBlock_id p.statements
  have hreturned : (p.result.map (mapNames f)).map (mapNames g) = p.result := by
    cases he : p.result with
    | none => rfl
    | some e =>
        rw [he] at hresult
        rw [Option.map_some, Option.map_some, mapNames_comp]
        calc
          _ = some (mapNames id e) := congrArg some (mapNames_congr e hresult)
          _ = some e := congrArg some (mapNames_id e)
  simp only [mapNamesInProgram, rename_rename hscope, hstatements, hreturned]

end

/-- The map that takes the images of some names back to them. -/
def inverse (m : OrderedMap String String) (names : List String) : OrderedMap String String :=
  tabulate (extend m) id names

theorem leftInvOn_inverse {m : OrderedMap String String} {names : List String}
    (h : Set.InjOn (extend m) {name | name ∈ names}) :
    Set.LeftInvOn (extend (inverse m names)) (extend m) {name | name ∈ names} := by
  apply extend_tabulate
  intro name hname other hother heq
  exact h hname hother heq

/-- The names that an expression or a statement uses. -/
def usedNamesInNode (withCounters : Bool) : Node → Except Fault (List String)
  | .expr e => usedNames e
  | .stmt s => usedNamesInStmt withCounters s
  | x => unknown x.kindName .usedVars

/-- The open tests of a statement; an expression has none. -/
def openTestsInNode : Node → Except Fault Nat
  | .stmt s => openTests s
  | _ => .ok 0

/-- One node is another one renamed. It can be renamed back, weighs the same, has as many open tests
and uses the images of the names. -/
structure NodeRenamed (m : OrderedMap String String) (x y : Node) : Prop where
  renamed : finish (renameNode (extend m) x) = (y, none)
  restored : finish (renameNode (extend (inverse m (namesInNode x))) y) = (x, none)
  weight : ∃ weight, weightOfNode x = .ok weight ∧ weightOfNode y = .ok weight
  openTests : ∃ count, openTestsInNode x = .ok count ∧ openTestsInNode y = .ok count
  used : ∀ withCounters, ∃ names, usedNamesInNode withCounters x = .ok names ∧
    usedNamesInNode withCounters y = .ok (names.map (extend m))

/-- The same for programs. Each container of the scope holds the images of its names one by one, so
that it has as many as before, containers without a common name still have none, and the index stays
as it is. -/
structure ProgramRenamed (m : OrderedMap String String) (p q : Program) : Prop where
  renamed : finish (renameProgram (extend m) p) = (q, none)
  restored : finish (renameProgram (extend (inverse m (namesInProgram p))) q) = (p, none)
  images : containers q.scope = (containers p.scope).map (List.map (extend m))
  lengths : ∀ i, (container q.scope i).length = (container p.scope i).length
  apart : ∀ i j, (container p.scope i).Disjoint (container p.scope j) →
    (container q.scope i).Disjoint (container q.scope j)
  index : q.scope.typeIndex = p.scope.typeIndex
  weight : ∃ weight, weightOfProgram p = .ok weight ∧ weightOfProgram q = .ok weight
  openTests : ∃ count, angelicCount p = .ok count ∧ angelicCount q = .ok count
  used : ∀ withCounters, ∃ names, usedVariables withCounters p = .ok names ∧
    usedVariables withCounters q = .ok (names.map (extend m))

variable {m : OrderedMap String String}

theorem nodeRenamed_image {x : Node} (hx : nodeKnown x = true)
    (h : Set.InjOn (extend m) {name | name ∈ namesInNode x}) :
    NodeRenamed m x (mapNamesInNode (extend m) x) where
  renamed := finish_renameNode _ hx
  restored := by
    rw [finish_renameNode _ ((nodeKnown_mapNames _ x).trans hx),
      mapNamesInNode_mapNamesInNode (leftInvOn_inverse h)]
  weight := (weightOfNode_answers hx).same (weightOfNode_mapNames _ x)
  openTests := by
    cases x with
    | stmt s => exact (measures_answer s hx).2.same (openTests_mapNames _ s)
    | _ => exact ⟨0, rfl, rfl⟩
  used withCounters := by
    cases x with
    | expr e =>
        obtain ⟨names, hnames, -⟩ := usedNames_among e hx
        exact Answers.image ⟨names, hnames⟩ (usedNames_mapNames _ e)
    | stmt s =>
        obtain ⟨names, hnames, -⟩ := usedNamesInStmt_among withCounters s hx
        exact Answers.image ⟨names, hnames⟩ (usedNamesInStmt_mapNames _ withCounters s)
    | text _ => cases hx
    | absent => cases hx

theorem programRenamed_image {p : Program} (hp : p.isKnown = true)
    (h : Set.InjOn (extend m) {name | name ∈ namesInProgram p}) :
    ProgramRenamed m p (mapNamesInProgram (extend m) p) := by
  have hscope : Set.InjOn (extend m) {name | name ∈ p.scope.takenNames} :=
    h.mono fun _ hname => List.mem_append_left _ hname
  have hlengths (i : Nat) :
      (container (p.scope.rename (extend m)) i).length = (container p.scope i).length := by
    rw [container_rename hscope, List.length_map]
  constructor
  case renamed => exact finish_renameProgram _ hp
  case restored =>
    rw [finish_renameProgram _ ((programKnown_mapNames _ p).trans hp),
      mapNamesInProgram_mapNamesInProgram (leftInvOn_inverse h)]
  case images => exact containers_rename hscope
  case lengths => exact hlengths
  case apart =>
    intro i j hapart image himage himage'
    rw [mapNamesInProgram, container_rename hscope] at himage himage'
    obtain ⟨name, hname, rfl⟩ := List.mem_map.mp himage
    obtain ⟨other, hother, heq⟩ := List.mem_map.mp himage'
    have hsame : other = name := hscope (mem_takenNames_of_mem_container hother)
      (mem_takenNames_of_mem_container hname) heq
    exact hapart hname (hsame ▸ hother)
  case index => rfl
  case weight =>
    have hlocals : (p.scope.rename (extend m)).locals.size = p.scope.locals.size := by
      simpa [container, containers, OrderedMap.keys, OrderedMap.size] using hlengths 1
    exact (weightOfProgram_answers hp).same (weightOfProgram_mapNames _ hlocals)
  case openTests => exact (angelicCount_answers hp).same (angelicCount_mapNames _ p)
  case used =>
    intro withCounters
    exact (usedVariables_answers withCounters hp).image (usedVariables_mapNames _ withCounters p)

/-- A renaming under which no two names of a known node or program become one can be undone. In
between the scope is as full as before, and the measures are the same. -/
theorem renaming_invertible (m : OrderedMap String String) :
    (∀ x, nodeKnown x = true → Set.InjOn (extend m) {name | name ∈ namesInNode x} →
      ∃ y, NodeRenamed m x y) ∧
    ∀ p, p.isKnown = true → Set.InjOn (extend m) {name | name ∈ namesInProgram p} →
      ∃ q, ProgramRenamed m p q := by
  constructor
  · intro x hx h
    exact ⟨_, nodeRenamed_image hx h⟩
  · intro p hp h
    exact ⟨_, programRenamed_image hp h⟩

theorem renaming_invertible_pursuit :
    Set.InjOn (extend (exchange "n" "m")) {name | name ∈ namesInProgram (pursuing "n" "m")} ∧
      (∃ y, NodeRenamed (exchange "n" "m") (.stmt (pursuit "n" "m")) y) ∧
      ∃ q, ProgramRenamed (exchange "n" "m") (pursuing "n" "m") q := by
  have hnames : ∀ name ∈ namesInProgram (pursuing "n" "m"),
      ∀ other ∈ namesInProgram (pursuing "n" "m"),
        extend (exchange "n" "m") name = extend (exchange "n" "m") other → name = other := by
    decide
  have hprogram : Set.InjOn (extend (exchange "n" "m"))
      {name | name ∈ namesInProgram (pursuing "n" "m")} :=
    fun name hname other hother => hnames name hname other hother
  have hnode : {name | name ∈ namesInNode (.stmt (pursuit "n" "m"))} ⊆
      {name | name ∈ namesInProgram (pursuing "n" "m")} := by
    have hsubset : ∀ name ∈ namesInNode (.stmt (pursuit "n" "m")),
        name ∈ namesInProgram (pursuing "n" "m") := by decide
    exact hsubset
  have h := renaming_invertible (exchange "n" "m")
  exact ⟨hprogram, h.1 _ rfl (hprogram.mono hnode), h.2 _ rfl hprogram⟩

end FragmentSynthesis.Proofs.InvertedRenamings
