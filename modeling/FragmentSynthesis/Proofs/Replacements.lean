import FragmentSynthesis.Proofs.SpliceSteps
import FragmentSynthesis.Renaming
import Mathlib.Data.List.Forall2

namespace FragmentSynthesis.Proofs.Replacements

open FragmentSynthesis.OrderedMaps
open FragmentSynthesis.Programs
open FragmentSynthesis.Proofs.Declarations
open FragmentSynthesis.Proofs.Mentions
open FragmentSynthesis.Proofs.SpliceSteps
open FragmentSynthesis.Renaming
open FragmentSynthesis.Scopes
open FragmentSynthesis.Splicing

/-- A chooser that picks members of the lists it is offered. -/
def Lawful (choose : Chooser) : Prop :=
  ∀ (asked : Nat) (offer : List String), offer ≠ [] → choose asked offer ∈ offer

theorem lawful_pickFirst : Lawful pickFirst := by
  intro asked offer hoffer
  cases offer with
  | nil => exact (hoffer rfl).elim
  | cons name rest => exact List.mem_cons_self

theorem get?_of_mem_candidates {scope : Scope} {type name : String}
    (h : name ∈ candidates scope type) : scope.parameters.get? name = some type := by
  obtain ⟨entry, hentry, rfl⟩ := List.mem_map.mp h
  obtain ⟨hmem, htype⟩ := List.mem_filter.mp hentry
  exact (get?_eq_some_iff _ _ _).mpr (by rwa [← beq_iff_eq.mp htype])

variable {choose : Chooser} {s t : Splice} {m m' : Mention} {ms ms' : List Mention}

theorem role_eq (h : Step choose s m m' t) : m'.role = m.role := by
  cases h <;> rfl

theorem roles_of_steps (h : Steps choose s ms ms' t) :
    List.Forall₂ (fun m m' => m'.role = m.role) ms ms' := by
  induction h with
  | nil s => exact .nil
  | cons first rest ih => exact .cons (role_eq first) ih

/-- A step declares at most the name it makes, and that of a binder always. -/
theorem declares_of_step (h : Step choose s m m' t) :
    ∃ ds, Declares s.scope ds t.scope ∧ bindersOf ds = bindersOf [m'] := by
  cases h with
  | replaced h => exact ⟨[], .nil _, rfl⟩
  | kept hnew h => exact ⟨[], .nil _, rfl⟩
  | chosen hnew hname hoffer h => exact ⟨[], .nil _, rfl⟩
  | declared hnew hname hoffer h =>
      exact ⟨[_], .cons (h ▸ FreshNames.freshLocal_notMem s.scope) (.nil _), rfl⟩
  | bound hrole h =>
      exact ⟨[_], .cons (h ▸ binderName_notMem s.scope _ (freshFor_notMem s.scope _)) (.nil _), rfl⟩

theorem declares_of_steps (h : Steps choose s ms ms' t) :
    ∃ ds, Declares s.scope ds t.scope ∧ bindersOf ds = bindersOf ms' := by
  induction h with
  | nil s => exact ⟨[], .nil _, rfl⟩
  | @cons s t u m m' ms ms' first rest ih =>
      obtain ⟨ds, hds, hfirst⟩ := declares_of_step first
      obtain ⟨es, hes, hrest⟩ := ih
      refine ⟨ds ++ es, hds.append hes, ?_⟩
      rw [bindersOf_append, hfirst, hrest, ← bindersOf_append, List.singleton_append]

theorem nodup_binders (h : Steps choose s ms ms' t) :
    ((bindersOf ms').map Mention.name).Nodup := by
  obtain ⟨ds, hds, hbinders⟩ := declares_of_steps h
  rw [← hbinders]
  exact hds.nodup_names.sublist (List.filter_sublist.map _)

theorem binder_free (h : Steps choose s ms ms' t) {b : Mention} (hb : b ∈ bindersOf ms') :
    b.name ∉ s.scope.takenNames := by
  obtain ⟨ds, hds, hbinders⟩ := declares_of_steps h
  exact hds.free b (mem_bindersOf.mp (hbinders ▸ hb)).1

theorem binder_holds (h : Steps choose s ms ms' t) {b : Mention} (hb : b ∈ bindersOf ms') :
    Holds t.scope b := by
  obtain ⟨ds, hds, hbinders⟩ := declares_of_steps h
  exact (hds.holds b).mpr (.inr (mem_bindersOf.mp (hbinders ▸ hb)).1)

/-- A name stands in some role for a parameter or field of a program as it was, or for something
that was declared since. -/
def Source (before after : Scope) (role : Role) (name : String) : Prop :=
  (role.isBinder = false ∧ before.parameters.get? name = some role.type) ∨
    (name ∉ before.takenNames ∧ Holds after ⟨role, name⟩)

theorem Source.mono {before after later : Scope} {role : Role} {name : String} {ds : List Mention}
    (h : Source before after role name) (hds : Declares after ds later) :
    Source before later role name :=
  h.imp_right fun hnew => ⟨hnew.1, (hds.holds _).mpr (.inl hnew.2)⟩

/-- A new name has a source in the role of some mention of the old one. -/
def SourceAmong (before after : Scope) (all : List Mention) (name replacement : String) : Prop :=
  ∃ o ∈ all, o.name = name ∧ Source before after o.role replacement

theorem SourceAmong.mono {before after later : Scope} {all ds : List Mention}
    {name replacement : String} (h : SourceAmong before after all name replacement)
    (hds : Declares after ds later) : SourceAmong before later all name replacement := by
  obtain ⟨o, ho, hname, hsource⟩ := h
  exact ⟨o, ho, hname, hsource.mono hds⟩

/-- A splice has only added to the scope of a program, and each replacement that it recorded was
made for one of the mentions of the name. -/
structure Traced (before : Scope) (all : List Mention) (s : Splice) : Prop where
  parameters_eq : s.scope.parameters = before.parameters
  taken : ∀ name ∈ before.takenNames, name ∈ s.scope.takenNames
  source : ∀ name replacement, s.renames.get? name = some replacement →
    SourceAmong before s.scope all name replacement

theorem traced_start (p : Program) (all : List Mention) :
    Traced p.scope all (start OrderedMap.empty p) where
  parameters_eq := rfl
  taken _ h := h
  source _ _ h := by cases h

theorem Traced.enter {before : Scope} {all : List Mention} (hs : Traced before all s)
    {o d : Mention} (ho : o ∈ all) (hd : d.role = o.role) (hfree : d.name ∉ s.scope.takenNames) :
    Traced before all (declareAs s o.name d) ∧
      SourceAmong before (declareAs s o.name d).scope all o.name d.name := by
  have hdeclares : Declares s.scope [d] (declareAs s o.name d).scope := .cons hfree (.nil _)
  have hsource : SourceAmong before (declareAs s o.name d).scope all o.name d.name := by
    refine ⟨o, ho, rfl, .inr ⟨fun h => hfree (hs.taken _ h), ?_⟩⟩
    rw [hdeclares.holds, ← hd]
    exact .inr List.mem_cons_self
  refine ⟨⟨?_, ?_, ?_⟩, hsource⟩
  · exact hdeclares.parameters_eq.trans hs.parameters_eq
  · intro name h
    exact (hdeclares.mem_takenNames name).mpr (.inl (hs.taken name h))
  · intro name replacement h
    simp only [declareAs, OrderedMap.get?_insert] at h
    split at h
    · rename_i hname
      rw [← hname, ← Option.some.inj h]
      exact hsource
    · exact (hs.source name replacement h).mono hdeclares

theorem Traced.mem_takenNames {before : Scope} {all : List Mention} (hs : Traced before all s)
    {name replacement : String} (h : SourceAmong before s.scope all name replacement) :
    replacement ∈ s.scope.takenNames := by
  obtain ⟨o, -, -, ⟨-, hparameter⟩ | ⟨-, hholds⟩⟩ := h
  · exact hs.taken _ (mem_takenNames_of_parameter hparameter)
  · exact hholds.mem_takenNames

theorem traced_step (hchoose : Lawful choose) {before : Scope} {all : List Mention} (hm : m ∈ all)
    (h : Step choose s m m' t) (hs : Traced before all s) :
    Traced before all t ∧ SourceAmong before t.scope all m.name m'.name := by
  cases h with
  | replaced h => exact ⟨hs, hs.source _ _ h⟩
  | kept hnew h =>
      rw [hs.parameters_eq] at h
      exact ⟨hs, _, hm, rfl, .inl ⟨rfl, h⟩⟩
  | @chosen type name replacement hnew hname hoffer h =>
      have hparameter : before.parameters.get? replacement = some type := by
        rw [← hs.parameters_eq, h]
        exact get?_of_mem_candidates (hchoose _ _ hoffer)
      refine ⟨⟨hs.parameters_eq, hs.taken, ?_⟩, _, hm, rfl, .inl ⟨rfl, hparameter⟩⟩
      intro other value hvalue
      simp only [OrderedMap.get?_insert] at hvalue
      split at hvalue
      · rename_i hother
        rw [← hother, ← Option.some.inj hvalue]
        exact ⟨_, hm, rfl, .inl ⟨rfl, hparameter⟩⟩
      · exact hs.source other value hvalue
  | declared hnew hname hoffer h =>
      exact hs.enter hm rfl (h ▸ FreshNames.freshLocal_notMem s.scope)
  | bound hrole h =>
      exact hs.enter hm rfl (h ▸ binderName_notMem s.scope _ (freshFor_notMem s.scope _))

theorem traced_steps (hchoose : Lawful choose) {before : Scope} {all : List Mention}
    (hms : ms ⊆ all) (h : Steps choose s ms ms' t) (hs : Traced before all s) :
    Traced before all t ∧
      List.Forall₂ (fun m m' => SourceAmong before t.scope all m.name m'.name) ms ms' := by
  induction h with
  | nil s => exact ⟨hs, .nil⟩
  | cons first rest ih =>
      obtain ⟨hm, hms⟩ := List.cons_subset.mp hms
      obtain ⟨htraced, hfirst⟩ := traced_step hchoose hm first hs
      obtain ⟨htraced', hrest⟩ := ih hms htraced
      obtain ⟨ds, hds, -⟩ := declares_of_steps rest
      exact ⟨htraced', .cons (hfirst.mono hds) hrest⟩

/-- What a step does to the map of names. It takes a replacement from there, leaves a name alone, or
records a replacement. -/
theorem renames_of_step (h : Step choose s m m' t) :
    (t.renames = s.renames ∧ s.renames.get? m.name = some m'.name) ∨
      (t.renames = s.renames ∧ s.renames.get? m.name = none ∧ m'.name = m.name ∧
        m.role.isBinder = false ∧ s.scope.parameters.get? m.name = some m.role.type) ∨
      (t.renames = s.renames.insert m.name m'.name ∧
        (m.role.isBinder = true ∨ s.renames.get? m.name = none ∧
          s.scope.parameters.get? m.name ≠ some m.role.type)) := by
  cases h with
  | replaced h => exact .inl ⟨rfl, h⟩
  | kept hnew h => exact .inr (.inl ⟨rfl, hnew, rfl, rfl, h⟩)
  | chosen hnew hname hoffer h => exact .inr (.inr ⟨rfl, .inr ⟨hnew, hname⟩⟩)
  | declared hnew hname hoffer h => exact .inr (.inr ⟨rfl, .inr ⟨hnew, hname⟩⟩)
  | bound hrole h => exact .inr (.inr ⟨rfl, .inl hrole⟩)

theorem get?_of_step (h : Step choose s m m' t) {name replacement : String}
    (hs : s.renames.get? name = some replacement) (hm : m.role.isBinder = true → m.name ≠ name) :
    t.renames.get? name = some replacement ∧ (m.name = name → m'.name = replacement) := by
  rcases renames_of_step h with ⟨ht, hget⟩ | ⟨ht, hget, -⟩ | ⟨ht, hbinds⟩
  · refine ⟨ht ▸ hs, ?_⟩
    intro hname
    rw [hname] at hget
    exact Option.some.inj (hget.symm.trans hs)
  · refine ⟨ht ▸ hs, ?_⟩
    intro hname
    rw [hname] at hget
    cases hget.symm.trans hs
  · have hname : m.name ≠ name := by
      rcases hbinds with hrole | ⟨hget, -⟩
      · exact hm hrole
      · rintro rfl
        cases hget.symm.trans hs
    constructor
    · rw [ht, OrderedMap.get?_insert, if_neg hname]
      exact hs
    · intro heq
      exact absurd heq hname

theorem get?_of_steps (h : Steps choose s ms ms' t) {name replacement : String}
    (hs : s.renames.get? name = some replacement) (hms : name ∉ boundNames ms) :
    t.renames.get? name = some replacement ∧
      List.Forall₂ (fun m m' => m.name = name → m'.name = replacement) ms ms' := by
  induction h with
  | nil s => exact ⟨hs, .nil⟩
  | @cons s t u m m' ms ms' first rest ih =>
      rw [mem_boundNames_cons, not_or] at hms
      obtain ⟨ht, hfirst⟩ := get?_of_step first hs (fun hrole hname => hms.1 ⟨hrole, hname⟩)
      obtain ⟨hu, hall⟩ := ih ht hms.2
      exact ⟨hu, .cons hfirst hall⟩

theorem get?_of_binder (h : Step choose s m m' t) (hm : m.role.isBinder = true) :
    t.renames.get? m.name = some m'.name := by
  rcases renames_of_step h with ⟨ht, hget⟩ | ⟨-, -, -, hvariable, -⟩ | ⟨ht, -⟩
  · rw [ht, hget]
  · cases hm.symm.trans hvariable
  · rw [ht, OrderedMap.get?_insert, if_pos rfl]

/-- The last binder of a name gives it its replacement. -/
theorem get?_of_bound (h : Steps choose s ms ms' t) {name : String} (hname : name ∈ boundNames ms) :
    ∃ b ∈ bindersOf ms', t.renames.get? name = some b.name := by
  induction h with
  | nil s => cases hname
  | @cons s t u m m' ms ms' first rest ih =>
      by_cases hrest : name ∈ boundNames ms
      · obtain ⟨b, hb, hget⟩ := ih hrest
        obtain ⟨hmem, hrole⟩ := mem_bindersOf.mp hb
        exact ⟨b, mem_bindersOf.mpr ⟨List.mem_cons_of_mem m' hmem, hrole⟩, hget⟩
      · obtain ⟨hrole, rfl⟩ := (mem_boundNames_cons.mp hname).resolve_right hrest
        have hrole' : m'.role.isBinder = true := by rw [role_eq first, hrole]
        exact ⟨m', mem_bindersOf.mpr ⟨List.mem_cons_self, hrole'⟩,
          (get?_of_steps rest (get?_of_binder first hrole) hrest).1⟩

end FragmentSynthesis.Proofs.Replacements
