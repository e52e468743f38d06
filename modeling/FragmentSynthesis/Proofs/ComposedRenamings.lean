import FragmentSynthesis.Proofs.Declarations
import FragmentSynthesis.Proofs.ImageMeasures

namespace FragmentSynthesis.Proofs.ComposedRenamings

open FragmentSynthesis.Expression
open FragmentSynthesis.OrderedMaps
open FragmentSynthesis.Programs
open FragmentSynthesis.Proofs.Declarations
open FragmentSynthesis.Proofs.ImageMeasures
open FragmentSynthesis.Proofs.KnownFragments
open FragmentSynthesis.Proofs.NameImages
open FragmentSynthesis.Renaming
open FragmentSynthesis.Statement
open FragmentSynthesis.StoppingChanges
open FragmentSynthesis.UsedNames

section

variable {α β : Type} [DecidableEq α]

theorem mem_insertAll {m : OrderedMap α β} {entries : List (α × β)} {entry : α × β}
    (h : entry ∈ (m.insertAll entries).entries) : entry ∈ m.entries ∨ entry ∈ entries := by
  obtain ⟨key, value⟩ := entry
  induction entries generalizing m with
  | nil => exact .inl h
  | cons other rest ih =>
      rcases ih h with hmem | hmem
      · rw [← get?_eq_some_iff, OrderedMap.get?_insert] at hmem
        split at hmem
        · rename_i hkey
          cases hkey
          cases hmem
          exact .inr List.mem_cons_self
        · exact .inl ((get?_eq_some_iff m key value).mp hmem)
      · exact .inr (List.mem_cons_of_mem _ hmem)

theorem get?_ofList {entries : List (α × β)} {key : α} {value : β} (h : (key, value) ∈ entries)
    (hunique : ∀ other, (key, other) ∈ entries → other = value) :
    (OrderedMap.ofList entries).get? key = some value := by
  have hkey : key ∈ (OrderedMap.ofList entries).keys :=
    (mem_keys_insertAll entries OrderedMap.empty key).mpr (.inr (List.mem_map_of_mem h))
  obtain ⟨other, hother⟩ := (mem_keys_iff _ key).mp hkey
  have hmem : (key, other) ∈ entries := by
    rcases mem_insertAll ((get?_eq_some_iff _ key other).mp hother) with hempty | hmem
    · cases hempty
    · exact hmem
  rw [hother, hunique other hmem]

end

/-- The map with an entry for each name. -/
def tabulate (key value : String → String) (names : List String) : OrderedMap String String :=
  OrderedMap.ofList (names.map fun name => (key name, value name))

theorem extend_tabulate {key value : String → String} {names : List String}
    (h : ∀ name ∈ names, ∀ other ∈ names, key name = key other → value name = value other) :
    ∀ name ∈ names, extend (tabulate key value names) (key name) = value name := by
  intro name hname
  have hget : (tabulate key value names).get? (key name) = some (value name) := by
    apply get?_ofList
    · exact List.mem_map_of_mem (f := fun name => (key name, value name)) hname
    · intro other hother
      obtain ⟨name', hname', heq⟩ := List.mem_map.mp hother
      obtain ⟨hkey, rfl⟩ := Prod.mk.inj heq
      exact h name' hname' name hname hkey
  rw [extend, hget, Option.getD_some]

/-- The map that takes each of some names where two renamings, one after the other, take it. -/
def composite (first second : OrderedMap String String) (names : List String) :
    OrderedMap String String :=
  tabulate id (extend second ∘ extend first) names

theorem extend_composite (first second : OrderedMap String String) (names : List String) :
    ∀ name ∈ names,
      extend (composite first second names) name = (extend second ∘ extend first) name :=
  extend_tabulate fun _ _ _ _ h => congrArg _ h

/-- Every name of a known tree is replaced by its image. A second renaming goes on from the images,
and one renaming does what both do. Whatever is renamed to what, the names that a known program uses
afterwards are the images of those that it used. -/
theorem renamings_compose (first second : OrderedMap String String) :
    (∀ x, nodeKnown x = true →
      let y := mapNamesInNode (extend first) x
      let z := mapNamesInNode (extend second ∘ extend first) x
      finish (renameNode (extend first) x) = (y, none) ∧
        finish (renameNode (extend second) y) = (z, none) ∧
        finish (renameNode (extend (composite first second (namesInNode x))) x) = (z, none)) ∧
    ∀ p withCounters, p.isKnown = true →
      let q := mapNamesInProgram (extend first) p
      finish (renameProgram (extend first) p) = (q, none) ∧
        ∃ used, usedVariables withCounters p = .ok used ∧
          usedVariables withCounters q = .ok (used.map (extend first)) := by
  constructor
  · intro x hx y z
    have hy : nodeKnown y = true := (nodeKnown_mapNames _ x).trans hx
    refine ⟨finish_renameNode _ hx, ?_, ?_⟩
    · rw [finish_renameNode _ hy, mapNamesInNode_comp]
    · rw [finish_renameNode _ hx,
        mapNamesInNode_congr x (extend_composite first second (namesInNode x))]
  · intro p withCounters hp q
    refine ⟨finish_renameProgram _ hp, ?_⟩
    exact (usedVariables_answers withCounters hp).image (usedVariables_mapNames _ withCounters p)

/-- Each of two names in the place of the other. -/
def exchange (name other : String) : OrderedMap String String :=
  OrderedMap.ofList [(name, other), (other, name)]

/-- Goes through numbers as long as a test holds that is open, but remembers a comparison. -/
def pursuit (bound number : String) : Stmt :=
  .loop 1 (.testing (some bound))
    (.angelic (some (.binary .lt (.variable bound "int") (.variable number "int"))))
    [.foreach 2 number "int" (.variable "numbers" "int[]")
      [.assign 3 (.variable bound "int") (.variable number "int")]]

/-- Pursues a bound, which it returns. -/
def pursuing (bound number : String) : Program :=
  { Program.new "pursue" "int" (OrderedMap.ofList [("numbers", "int[]"), (bound, "int")]) with
    statements := [pursuit bound number]
    result := some (.variable bound "int") }

theorem renamings_compose_pursuit :
    let first := exchange "n" "m"
    let second := OrderedMap.ofList [("m", "k"), ("n", "k")]
    let names := namesInNode (.stmt (pursuit "n" "m"))
    nodeKnown (.stmt (pursuit "n" "m")) = true ∧ (pursuing "n" "m").isKnown = true ∧
      finish (renameNode (extend first) (.stmt (pursuit "n" "m"))) =
        (.stmt (pursuit "m" "n"), none) ∧
      finish (renameNode (extend second) (.stmt (pursuit "m" "n"))) =
        (.stmt (pursuit "k" "k"), none) ∧
      finish (renameNode (extend (composite first second names)) (.stmt (pursuit "n" "m"))) =
        (.stmt (pursuit "k" "k"), none) ∧
      ∃ used, usedVariables true (pursuing "n" "m") = .ok used ∧
        usedVariables true (pursuing "m" "n") = .ok (used.map (extend first)) := by
  intro first second names
  obtain ⟨hfirst, hsecond, hboth⟩ :=
    (renamings_compose first second).1 (.stmt (pursuit "n" "m")) rfl
  obtain ⟨-, hused⟩ := (renamings_compose first second).2 (pursuing "n" "m") true rfl
  exact ⟨rfl, rfl, hfirst, hsecond, hboth, hused⟩

end FragmentSynthesis.Proofs.ComposedRenamings
