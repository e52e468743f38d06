import FragmentSynthesis.Proofs.Replacements

namespace FragmentSynthesis.Proofs.SpliceHistories

open FragmentSynthesis.Expression
open FragmentSynthesis.Faults
open FragmentSynthesis.NameSets
open FragmentSynthesis.OrderedMaps
open FragmentSynthesis.Programs
open FragmentSynthesis.Proofs.Declarations
open FragmentSynthesis.Proofs.KnownFragments
open FragmentSynthesis.Proofs.Mentions
open FragmentSynthesis.Proofs.Replacements
open FragmentSynthesis.Proofs.SpliceSteps
open FragmentSynthesis.Scopes
open FragmentSynthesis.Splicing
open FragmentSynthesis.Statement
open FragmentSynthesis.UsedNames

/-- A fragment that is to be spliced in, and who chooses. -/
structure Insertion where
  choose : Chooser
  fragment : Node

/-- Statements are appended, and an expression becomes the result. -/
def put (p : Program) : Node → Program
  | .stmt s => p.addStatement s
  | .expr e => p.setResult (some e)
  | .text _ => p
  | .absent => p

/-- Splices in a copy of a fragment. -/
def insert (p : Program) (i : Insertion) : Except Fault Program := do
  let copy ← i.fragment.copy
  let r := fit i.choose OrderedMap.empty p copy
  match r.fault with
  | some fault => .error fault
  | none => return put r.program r.fragment

/-- Splices in fragments one after the other, up to the first fault. -/
def insertAll (p : Program) (history : List Insertion) : Except Fault Program :=
  history.foldlM insert p

theorem mem_keys_all (s : Scope) (name : String) :
    name ∈ s.all.keys ↔ name ∈ s.parameters.keys ∨ ∃ role, Holds s ⟨role, name⟩ := by
  have hunion : name ∈ (s.counters.union s.headerCounters).names ↔
      name ∈ s.counters.names ∨ name ∈ s.headerCounters.names :=
    NameSet.mem_foldl_insert _ _ _
  simp only [Scope.all, mem_keys_insertAll, List.map_map, Function.comp_def, List.map_id', hunion,
    or_assoc]
  apply or_congr_right
  constructor
  · rintro (h | h | h | h)
    · obtain ⟨type, htype⟩ := (mem_keys_iff s.locals name).mp h
      exact ⟨.variable type, htype⟩
    · exact ⟨.counter false, h⟩
    · exact ⟨.counter true, h⟩
    · obtain ⟨type, htype⟩ := (mem_keys_iff s.elements name).mp h
      exact ⟨.element type, htype⟩
  · rintro ⟨role, h⟩
    rcases role with type | ⟨_ | _⟩ | type
    · exact .inl ((mem_keys_iff s.locals name).mpr ⟨type, h⟩)
    · exact .inr (.inl h)
    · exact .inr (.inr (.inl h))
    · exact .inr (.inr (.inr ((mem_keys_iff s.elements name).mpr ⟨type, h⟩)))

theorem mem_keys_all_of_declares {s t : Scope} {ds : List Mention} (h : Declares s ds t)
    {name : String} (hname : name ∈ s.all.keys) : name ∈ t.all.keys := by
  rw [mem_keys_all] at hname ⊢
  rw [h.parameters_eq]
  exact hname.imp_right fun ⟨role, hrole⟩ => ⟨role, (h.holds _).mpr (.inl hrole)⟩

theorem mem_keys_all_of_source {before after : Scope} {all : List Mention}
    {name replacement : String} (hparameters : after.parameters = before.parameters)
    (h : SourceAmong before after all name replacement) : replacement ∈ after.all.keys := by
  rw [mem_keys_all, hparameters]
  obtain ⟨o, -, -, ⟨-, hparameter⟩ | ⟨-, hholds⟩⟩ := h
  · exact .inl ((mem_keys_iff _ _).mpr ⟨_, hparameter⟩)
  · exact .inr ⟨o.role, hholds⟩

def mentionsInResult : Option Expr → List Mention
  | none => []
  | some e => mentions e

/-- The variables of a program, in its statements and then in what it returns. -/
def mentionsInProgram (p : Program) : List Mention :=
  mentionsInBlock p.statements ++ mentionsInResult p.result

theorem mentionsInBlock_concat (body : List Stmt) (x : Stmt) :
    mentionsInBlock (body ++ [x]) = mentionsInBlock body ++ mentionsInStmt x := by
  induction body with
  | nil => exact List.append_nil _
  | cons s rest ih => simp only [List.cons_append, mentionsInBlock, ih, List.append_assoc]

theorem blockKnown_concat (body : List Stmt) (x : Stmt) :
    blockKnown (body ++ [x]) = (blockKnown body && x.isKnown) := by
  induction body with
  | nil => exact (Bool.and_true _).trans (Bool.true_and _).symm
  | cons s rest ih => simp only [List.cons_append, blockKnown, ih, Bool.and_assoc]

theorem bindersOf_mentions (e : Expr) : bindersOf (mentions e) = [] :=
  List.filter_eq_nil_iff.mpr fun m hm => Bool.eq_false_iff.mp (isBinder_mentions e m hm)

theorem bindersOf_put (p : Program) (n : Node) :
    bindersOf (mentionsInBlock (put p n).statements) =
      bindersOf (mentionsInBlock p.statements) ++ bindersOf (mentionsInNode n) := by
  cases n with
  | stmt x =>
      rw [← bindersOf_append]
      exact congrArg bindersOf (mentionsInBlock_concat p.statements x)
  | expr e =>
      rw [mentionsInNode, bindersOf_mentions, List.append_nil]
      rfl
  | text text => exact (List.append_nil _).symm
  | absent => exact (List.append_nil _).symm

theorem mem_mentionsInProgram_put {p : Program} {n : Node} {m : Mention}
    (h : m ∈ mentionsInProgram (put p n)) : m ∈ mentionsInProgram p ∨ m ∈ mentionsInNode n := by
  cases n with
  | stmt x =>
      rcases List.mem_append.mp h with h | h
      · rw [put, Program.addStatement, mentionsInBlock_concat] at h
        exact (List.mem_append.mp h).imp_left (List.mem_append_left _)
      · exact .inl (List.mem_append_right _ h)
  | expr e => exact (List.mem_append.mp h).imp_left (List.mem_append_left _)
  | text text => exact .inl h
  | absent => exact .inl h

theorem isKnown_put {p : Program} {n : Node} (hp : p.isKnown = true) (hn : nodeKnown n = true) :
    (put p n).isKnown = true := by
  obtain ⟨hbody, hresult⟩ := Bool.and_eq_true_iff.mp hp
  cases n with
  | stmt x =>
      refine Bool.and_eq_true_iff.mpr ⟨?_, hresult⟩
      exact (blockKnown_concat p.statements x).trans (Bool.and_eq_true_iff.mpr ⟨hbody, hn⟩)
  | expr e => exact Bool.and_eq_true_iff.mpr ⟨hbody, hn⟩
  | text text => cases hn
  | absent => cases hn

/-- Every name mentioned in a program is declared, and the counters and elements declared are those
that its loops bind, each in one loop. -/
structure Sound (p : Program) : Prop where
  known : p.isKnown = true
  declared : ∀ m ∈ mentionsInProgram p, m.name ∈ p.scope.all.keys
  binders : ∀ b : Mention, b ∈ bindersOf (mentionsInBlock p.statements) ↔
    b.role.isBinder = true ∧ Holds p.scope b
  distinct : (boundNames (mentionsInBlock p.statements)).Nodup

theorem sound_new (name returnType : String) (parameters : OrderedMap String String) :
    Sound (Program.new name returnType parameters) where
  known := rfl
  declared := List.forall_mem_nil _
  binders b := by
    constructor
    · intro h
      cases h
    · rintro ⟨hb, h⟩
      rcases b with ⟨_ | ⟨_ | _⟩ | _, name⟩ <;> cases h
  distinct := List.nodup_nil

/-- Declarations keep the invariant if the fragment that is put in place binds just what they
declare for loops, and mentions only what is declared. -/
theorem Sound.put {p : Program} (hp : Sound p) {scope : Scope} {ds : List Mention}
    (hds : Declares p.scope ds scope) {n : Node} (hn : nodeKnown n = true)
    (hbinders : bindersOf ds = bindersOf (mentionsInNode n))
    (hdeclared : ∀ m ∈ mentionsInNode n, m.name ∈ scope.all.keys) :
    Sound (put { p with scope := scope } n) := by
  have hscope : (SpliceHistories.put { p with scope := scope } n).scope = scope := by
    cases n <;> rfl
  constructor
  · exact isKnown_put hp.known hn
  · intro m hm
    rw [hscope]
    rcases mem_mentionsInProgram_put hm with hm | hm
    · exact mem_keys_all_of_declares hds (hp.declared m hm)
    · exact hdeclared m hm
  · intro b
    rw [bindersOf_put, hscope, List.mem_append, hp.binders, ← hbinders, mem_bindersOf, hds.holds b,
      and_comm (a := b ∈ ds), ← and_or_left]
  · rw [boundNames, bindersOf_put, ← hbinders, List.map_append]
    refine List.nodup_append.mpr
      ⟨hp.distinct, hds.nodup_names.sublist (List.filter_sublist.map _), ?_⟩
    -- What a loop of the program binds was taken, and what is declared was free.
    rintro _ hold _ hnew rfl
    obtain ⟨b, hb, hname⟩ := List.mem_map.mp hold
    obtain ⟨d, hd, rfl⟩ := List.mem_map.mp hnew
    refine hds.free d (mem_bindersOf.mp hd).1 ?_
    rw [← hname]
    exact ((hp.binders b).mp hb).2.mem_takenNames

theorem forall_of_forall₂ {α β : Type} {R : α → β → Prop} {P : β → Prop} {l : List α} {u : List β}
    (h : List.Forall₂ R l u) (hP : ∀ a b, R a b → P b) : ∀ b ∈ u, P b := by
  induction h with
  | nil => exact List.forall_mem_nil _
  | cons first rest ih => exact List.forall_mem_cons.mpr ⟨hP _ _ first, ih⟩

theorem insert_sound {p : Program} (hp : Sound p) {i : Insertion} (hchoose : Lawful i.choose)
    (hknown : nodeKnown i.fragment = true) : ∃ q, insert p i = .ok q ∧ Sound q := by
  have hsteps := fit_steps i.choose OrderedMap.empty p hknown
  obtain ⟨ds, hds, hbinders⟩ := declares_of_steps hsteps
  obtain ⟨htraced, hsource⟩ :=
    traced_steps hchoose (List.Subset.refl _) hsteps (traced_start p _)
  let r := fit i.choose OrderedMap.empty p i.fragment
  have hfault : r.fault = none := fault_fit i.choose _ p hknown
  have hinsert : insert p i = .ok (put r.program r.fragment) := by
    have hmatch : insert p i = match r.fault with
        | some fault => .error fault
        | none => .ok (SpliceHistories.put r.program r.fragment) := by
      rw [insert, copy_of_known hknown]
      rfl
    rw [hmatch, hfault]
  have hknown' : nodeKnown r.fragment = true := by
    rw [← nodeKnown_shape, shapeNode_fit i.choose _ p hknown, nodeKnown_shape, hknown]
  refine ⟨_, hinsert, hp.put hds hknown' hbinders ?_⟩
  refine forall_of_forall₂ hsource ?_
  intro m m' hm
  exact mem_keys_all_of_source hds.parameters_eq hm

theorem insertAll_sound {p : Program} (hp : Sound p) (history : List Insertion)
    (h : ∀ i ∈ history, Lawful i.choose ∧ nodeKnown i.fragment = true) :
    ∃ q, insertAll p history = .ok q ∧ Sound q := by
  induction history generalizing p with
  | nil => exact ⟨p, rfl, hp⟩
  | cons i rest ih =>
      obtain ⟨⟨hchoose, hknown⟩, hrest⟩ := List.forall_mem_cons.mp h
      obtain ⟨q, hinsert, hq⟩ := insert_sound hp hchoose hknown
      obtain ⟨last, hlast, hsound⟩ := ih hq hrest
      refine ⟨last, ?_, hsound⟩
      rw [insertAll, List.foldlM_cons, hinsert]
      exact hlast

/-- Every used name is declared. The binders of all loops are distinct, each has its place in the
scope, and what has such a place is bound by just one loop. -/
structure WellScoped (p : Program) : Prop where
  used : ∀ withCounters : Bool, ∃ names, usedVariables withCounters p = .ok names ∧
    ∀ name ∈ names.names, name ∈ p.scope.all.keys
  distinct : (boundNames (mentionsInBlock p.statements)).Nodup
  binders : ∀ b ∈ bindersOf (mentionsInBlock p.statements), Holds p.scope b
  boundOnce : ∀ name, name ∈ p.scope.counters.names ∨ name ∈ p.scope.headerCounters.names ∨
    name ∈ p.scope.elements.keys → (boundNames (mentionsInBlock p.statements)).count name = 1

theorem usedVariables_among {p : Program} (hp : p.isKnown = true) (withCounters : Bool) :
    ∃ names, usedVariables withCounters p = .ok names ∧
      names.names ⊆ (mentionsInProgram p).map Mention.name := by
  obtain ⟨hbody, hresult⟩ := Bool.and_eq_true_iff.mp hp
  obtain ⟨found, hfound, hsub⟩ := usedNamesInBlock_among withCounters p.statements hbody
  rw [mentionsInProgram, List.map_append]
  cases hr : p.result with
  | none =>
      refine ⟨NameSet.ofList found, ?_, ?_⟩
      · simp only [usedVariables, hfound, hr]
        rfl
      · intro name hname
        exact List.mem_append_left _ (hsub ((NameSet.mem_ofList _ _).mp hname))
  | some e =>
      rw [hr] at hresult
      obtain ⟨others, hothers, hsub'⟩ := usedNames_among e hresult
      refine ⟨NameSet.ofList (found ++ others), ?_, ?_⟩
      · simp only [usedVariables, hfound, hr, hothers]
        rfl
      · intro name hname
        rcases List.mem_append.mp ((NameSet.mem_ofList _ _).mp hname) with hname | hname
        · exact List.mem_append_left _ (hsub hname)
        · exact List.mem_append_right _ (hsub' hname)

theorem Sound.wellScoped {p : Program} (hp : Sound p) : WellScoped p where
  used withCounters := by
    obtain ⟨names, hnames, hsub⟩ := usedVariables_among hp.known withCounters
    refine ⟨names, hnames, ?_⟩
    intro name hname
    obtain ⟨m, hm, rfl⟩ := List.mem_map.mp (hsub hname)
    exact hp.declared m hm
  distinct := hp.distinct
  binders b hb := ((hp.binders b).mp hb).2
  boundOnce name hname := by
    have hbound (role : Role) (hrole : role.isBinder = true) (h : Holds p.scope ⟨role, name⟩) :
        (boundNames (mentionsInBlock p.statements)).count name = 1 :=
      List.count_eq_one_of_mem hp.distinct
        (List.mem_map_of_mem ((hp.binders ⟨role, name⟩).mpr ⟨hrole, h⟩))
    rcases hname with h | h | h
    · exact hbound (.counter false) rfl h
    · exact hbound (.counter true) rfl h
    · obtain ⟨type, htype⟩ := (mem_keys_iff _ _).mp h
      exact hbound (.element type) rfl htype

theorem insertAll_wellScoped (name returnType : String) (parameters : OrderedMap String String)
    (history : List Insertion)
    (h : ∀ i ∈ history, Lawful i.choose ∧ nodeKnown i.fragment = true) :
    ∃ p, insertAll (Program.new name returnType parameters) history = .ok p ∧ WellScoped p := by
  obtain ⟨p, hp, hsound⟩ := insertAll_sound (sound_new name returnType parameters) history h
  exact ⟨p, hp, hsound.wellScoped⟩

/-- A loop through elements, with a counter that its body writes. -/
def writtenCounter (element container counter : String) : Stmt :=
  .foreach 1 element "int" (.variable container "int[]")
    [.loop 2 (.counting counter false) (.angelic none)
      [.assign 3 (.variable counter "int") (.variable element "int")]]

/-- One fragment twice, and then a result that reads a name of its loops. -/
def repeated : List Insertion :=
  [⟨pickFirst, .stmt (writtenCounter "x" "xs" "i")⟩,
    ⟨pickFirst, .stmt (writtenCounter "x" "xs" "i")⟩, ⟨pickFirst, .expr (.variable "x" "int")⟩]

theorem insertAll_wellScoped_repeated :
    (∀ i ∈ repeated, Lawful i.choose ∧ nodeKnown i.fragment = true) ∧
      ∃ p, insertAll (Program.new "f" "int" (OrderedMap.ofList [("i", "char")])) repeated = .ok p ∧
        p.statements = [writtenCounter "x" "var0" "j", writtenCounter "elem" "var1" "k"] ∧
        p.result = some (.variable "var2" "int") ∧ WellScoped p := by
  have h : ∀ i ∈ repeated, Lawful i.choose ∧ nodeKnown i.fragment = true := by
    intro i hi
    rcases List.mem_cons.mp hi with rfl | hi
    · exact ⟨lawful_pickFirst, rfl⟩
    rcases List.mem_cons.mp hi with rfl | hi
    · exact ⟨lawful_pickFirst, rfl⟩
    · rw [List.mem_singleton.mp hi]
      exact ⟨lawful_pickFirst, rfl⟩
  obtain ⟨p, hp, hscoped⟩ :=
    insertAll_wellScoped "f" "int" (OrderedMap.ofList [("i", "char")]) repeated h
  refine ⟨h, p, hp, ?_, ?_, hscoped⟩
  · cases hp
    rfl
  · cases hp
    rfl

end FragmentSynthesis.Proofs.SpliceHistories
