import FragmentSynthesis.Proofs.RenamedFragments
import FragmentSynthesis.Proofs.Replacements

namespace FragmentSynthesis.Proofs.OneReplacement

open FragmentSynthesis.Expression
open FragmentSynthesis.Faults
open FragmentSynthesis.OrderedMaps
open FragmentSynthesis.Programs
open FragmentSynthesis.Proofs.Declarations
open FragmentSynthesis.Proofs.KnownFragments
open FragmentSynthesis.Proofs.Mentions
open FragmentSynthesis.Proofs.RenamedFragments
open FragmentSynthesis.Proofs.Replacements
open FragmentSynthesis.Proofs.SpliceSteps
open FragmentSynthesis.Renaming
open FragmentSynthesis.Scopes
open FragmentSynthesis.Splicing
open FragmentSynthesis.Statement
open FragmentSynthesis.StatementText
open FragmentSynthesis.StoppingChanges

variable {choose : Chooser} {s t u : Splice} {m m' : Mention} {ms ms' : List Mention}

theorem parameters_of_steps (h : Steps choose s ms ms' t) :
    t.scope.parameters = s.scope.parameters := by
  obtain ⟨ds, hds, -⟩ := declares_of_steps h
  exact hds.parameters_eq

theorem get?_eq_none_of_step (h : Step choose s m m' t) {name type : String}
    (hnew : s.renames.get? name = none) (hname : s.scope.parameters.get? name = some type)
    (hm : m.name = name → m.role.isBinder = false ∧ m.role.type = type) :
    t.renames.get? name = none := by
  rcases renames_of_step h with ⟨ht, -⟩ | ⟨ht, -⟩ | ⟨ht, hrecorded⟩
  · rw [ht, hnew]
  · rw [ht, hnew]
  · have hne : m.name ≠ name := by
      rintro rfl
      obtain ⟨hvariable, htype⟩ := hm rfl
      rcases hrecorded with hrole | ⟨-, hother⟩
      · cases hrole.symm.trans hvariable
      · exact hother (htype ▸ hname)
    rw [ht, OrderedMap.get?_insert, if_neg hne, hnew]

theorem get?_eq_none_of_steps (h : Steps choose s ms ms' t) {name type : String}
    (hnew : s.renames.get? name = none) (hname : s.scope.parameters.get? name = some type)
    (hms : ∀ m ∈ ms, m.name = name → m.role.isBinder = false ∧ m.role.type = type) :
    t.renames.get? name = none := by
  induction h with
  | nil s => exact hnew
  | cons first rest ih =>
      obtain ⟨hm, hms⟩ := List.forall_mem_cons.mp hms
      refine ih (get?_eq_none_of_step first hnew hname hm) ?_ hms
      rw [parameters_of_steps (.single first)]
      exact hname

/-- No variable is mentioned before a loop comes to bind its name. -/
def BindersFirst (ms : List Mention) : Prop :=
  ms.Pairwise fun m later =>
    m.role.isBinder = false → later.role.isBinder = true → m.name ≠ later.name

instance (ms : List Mention) : Decidable (BindersFirst ms) := by
  unfold BindersFirst
  infer_instance

theorem bindersFirst_cons :
    BindersFirst (m :: ms) ↔
      (m.role.isBinder = false → m.name ∉ boundNames ms) ∧ BindersFirst ms := by
  rw [BindersFirst, List.pairwise_cons]
  apply and_congr_left
  intro _
  constructor
  · intro h hvariable hbound
    obtain ⟨b, hb, hrole, hname⟩ := mem_boundNames.mp hbound
    exact h b hb hvariable hrole hname.symm
  · intro h b hb hvariable hrole hname
    exact h hvariable (mem_boundNames.mpr ⟨b, hb, hrole, hname.symm⟩)

/-- The map has the replacement of a name, unless a binder of the name comes later. -/
theorem extend_eq_of_steps (first : Step choose s m m' t) (rest : Steps choose t ms ms' u)
    (htype : OneType (m :: ms)) (hms : m.name ∉ boundNames ms) :
    extend u.renames m.name = m'.name := by
  have hmapped (hget : t.renames.get? m.name = some m'.name) :
      extend u.renames m.name = m'.name := by
    rw [extend, (get?_of_steps rest hget hms).1, Option.getD_some]
  rcases renames_of_step first with ⟨ht, hget⟩ | ⟨ht, hget, hname, hvariable, hparameter⟩ | ⟨ht, -⟩
  · exact hmapped (ht ▸ hget)
  · -- a name that was kept gets no replacement later on, as all its mentions have its type
    rw [← parameters_of_steps (.single first)] at hparameter
    have hnone : u.renames.get? m.name = none := by
      apply get?_eq_none_of_steps rest (ht ▸ hget) hparameter
      intro o ho hname
      constructor
      · by_contra hbinder
        exact hms (mem_boundNames.mpr ⟨o, ho, Bool.of_not_eq_false hbinder, hname⟩)
      · exact htype o (List.mem_cons_of_mem m ho) m List.mem_cons_self hname
    rw [extend, hnone, Option.getD_none, hname]
  · exact hmapped (by rw [ht, OrderedMap.get?_insert, if_pos rfl])

/-- A binder that comes later takes a name that the variable before it does not have. -/
theorem extend_ne_of_steps {before : Scope} {all : List Mention} (ht : Traced before all t)
    (hsource : SourceAmong before t.scope all m.name m'.name) (rest : Steps choose t ms ms' u)
    (hms : m.name ∈ boundNames ms) : extend u.renames m.name ≠ m'.name := by
  obtain ⟨b, hb, hget⟩ := get?_of_bound rest hms
  rw [extend, hget, Option.getD_some]
  rintro hname
  exact binder_free rest hb (hname ▸ ht.mem_takenNames hsource)

/-- What a splice makes of the names is what its map makes of them, just if binders come first. -/
theorem extend_iff_bindersFirst (hchoose : Lawful choose) {before : Scope} {all : List Mention}
    (h : Steps choose s ms ms' t) (hs : Traced before all s) (hms : ms ⊆ all)
    (htype : OneType all) (hnodup : (boundNames ms).Nodup) :
    List.Forall₂ (fun m m' => m'.name = extend t.renames m.name) ms ms' ↔ BindersFirst ms := by
  induction h with
  | nil s => exact ⟨fun _ => List.Pairwise.nil, fun _ => .nil⟩
  | @cons s t u m m' ms ms' first rest ih =>
      obtain ⟨hm, hsub⟩ := List.cons_subset.mp hms
      obtain ⟨ht, hsource⟩ := traced_step hchoose hm first hs
      obtain ⟨hown, hnodup⟩ := nodup_boundNames_cons.mp hnodup
      rw [bindersFirst_cons, List.forall₂_cons]
      refine and_congr ?_ (ih ht hsub hnodup)
      constructor
      · intro heq _ hbound
        exact extend_ne_of_steps ht hsource rest hbound heq.symm
      · intro hfirst
        have hnot : m.name ∉ boundNames ms := by
          cases hrole : m.role.isBinder with
          | false => exact hfirst hrole
          | true => exact hown hrole
        exact (extend_eq_of_steps first rest (htype.subset hms) hnot).symm

theorem eq_map_iff (h : Steps choose s ms ms' t) (f : String → String) :
    (ms' = ms.map fun m => m.withName (f m.name)) ↔
      List.Forall₂ (fun m m' => m'.name = f m.name) ms ms' := by
  induction h with
  | nil s => exact ⟨fun _ => .nil, fun _ => rfl⟩
  | @cons s t u m m' ms ms' first rest ih =>
      rw [List.map_cons, List.cons.injEq, List.forall₂_cons, ih]
      apply and_congr_left
      intro _
      constructor
      · intro heq
        exact congrArg Mention.name heq
      · intro hname
        rw [← hname, Mention.withName, ← role_eq first]

/-- Where each name has one type and no two loops bind one name, every name of the outcome is the
replacement of the old one just if binders come first, and then the outcome has the encoding of the
fragment renamed by the map. -/
theorem fit_eq_rename_iff (choose : Chooser) (hchoose : Lawful choose) (p : Program) (n : Node)
    (hknown : nodeKnown n = true) (htype : OneType (mentionsInNode n))
    (hnodup : (boundNames (mentionsInNode n)).Nodup) :
    let r := fit choose OrderedMap.empty p n
    r.fault = none ∧
      ((mentionsInNode r.fragment =
          (mentionsInNode n).map fun m => m.withName (extend r.renames m.name)) ↔
        BindersFirst (mentionsInNode n)) ∧
      (BindersFirst (mentionsInNode n) →
        ∃ renamed, finish (renameNode (extend r.renames) n) = (renamed, none) ∧
          encodeNode r.fragment = encodeNode renamed) := by
  intro r
  have hsteps := fit_steps choose OrderedMap.empty p hknown
  have hiff : (mentionsInNode r.fragment =
      (mentionsInNode n).map fun m => m.withName (extend r.renames m.name)) ↔
        BindersFirst (mentionsInNode n) := by
    rw [eq_map_iff hsteps]
    exact extend_iff_bindersFirst hchoose hsteps (traced_start p _) (List.Subset.refl _) htype
      hnodup
  refine ⟨fault_fit choose _ p hknown, hiff, ?_⟩
  intro hfirst
  obtain ⟨hstopped, hnames, hshape⟩ := renameNode_inRenaming (extend r.renames) n hknown none rfl
  refine ⟨((renameNode (extend r.renames) n).run none).1, Prod.ext rfl hstopped, ?_⟩
  apply encodeNode_eq_of_shape
  · rw [shapeNode_fit choose _ p hknown]
    exact hshape.symm
  · rw [hiff.mpr hfirst, hnames]

def assignOne (name : String) : Stmt :=
  .assign 2 (.variable name "int") (.literal (.int 1) "int")

def countingLoop (name : String) : Stmt :=
  .loop 2 (.counting name false) (.angelic none) []

/-- A counter that is written before its loop. -/
def earlyUse : Node :=
  .stmt (.branch 1 (.angelic none) [assignOne "x", countingLoop "x"])

/-- A counter that is written after its loop. -/
def lateUse : Node :=
  .stmt (.branch 1 (.angelic none) [countingLoop "x", assignOne "x"])

/-- The counter is no parameter of this program, so that the early use becomes a local while the
loop keeps the name. -/
def withoutCounter : Program :=
  Program.new "f" "void" OrderedMap.empty

theorem fit_ne_rename_earlyUse :
    nodeKnown earlyUse = true ∧ OneType (mentionsInNode earlyUse) ∧
      (boundNames (mentionsInNode earlyUse)).Nodup ∧
      let r := fit pickFirst OrderedMap.empty withoutCounter earlyUse
      encodeNode r.fragment ≠ encodeNode (finish (renameNode (extend r.renames) earlyUse)).1 := by
  refine ⟨rfl, ?_, by decide, ?_⟩
  · unfold OneType
    decide
  · intro r heq
    cases heq

theorem fit_eq_rename_lateUse :
    Lawful pickFirst ∧ nodeKnown lateUse = true ∧ OneType (mentionsInNode lateUse) ∧
      (boundNames (mentionsInNode lateUse)).Nodup ∧ BindersFirst (mentionsInNode lateUse) ∧
      let r := fit pickFirst OrderedMap.empty withoutCounter lateUse
      r.fault = none ∧
        ((mentionsInNode r.fragment =
            (mentionsInNode lateUse).map fun m => m.withName (extend r.renames m.name)) ↔
          BindersFirst (mentionsInNode lateUse)) ∧
        (BindersFirst (mentionsInNode lateUse) →
          ∃ renamed, finish (renameNode (extend r.renames) lateUse) = (renamed, none) ∧
            encodeNode r.fragment = encodeNode renamed) := by
  have htype : OneType (mentionsInNode lateUse) := by
    unfold OneType
    decide
  exact ⟨lawful_pickFirst, rfl, htype, by decide, by decide,
    fit_eq_rename_iff pickFirst lawful_pickFirst withoutCounter lateUse rfl htype (by decide)⟩

end FragmentSynthesis.Proofs.OneReplacement
