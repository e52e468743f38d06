import FragmentSynthesis.Proofs.Replacements
import FragmentSynthesis.Proofs.ScopeTables
import FragmentSynthesis.Weight

namespace FragmentSynthesis.Proofs.SpliceFrames

open FragmentSynthesis.Expression
open FragmentSynthesis.Faults
open FragmentSynthesis.NameSets
open FragmentSynthesis.OrderedMaps
open FragmentSynthesis.Programs
open FragmentSynthesis.Proofs.Declarations
open FragmentSynthesis.Proofs.FreshNames
open FragmentSynthesis.Proofs.KnownFragments
open FragmentSynthesis.Proofs.Mentions
open FragmentSynthesis.Proofs.Replacements
open FragmentSynthesis.Proofs.ScopeTables
open FragmentSynthesis.Proofs.SpliceSteps
open FragmentSynthesis.Scopes
open FragmentSynthesis.Splicing
open FragmentSynthesis.Statement
open FragmentSynthesis.UsedNames
open FragmentSynthesis.Weight

/-- The local that a mention declares. -/
def newLocal? (d : Mention) : Option (String × String) :=
  match d.role with
  | .variable type => some (d.name, type)
  | _ => none

def newCounter? (inHeader : Bool) (d : Mention) : Option String :=
  if d.role = .counter inHeader then some d.name else none

def newElement? (d : Mention) : Option (String × String) :=
  match d.role with
  | .element type => some (d.name, type)
  | _ => none

/-- The names of a type in a list of declarations. -/
def namesWithType (type : String) (ds : List Mention) : List String :=
  (ds.filter fun d => d.role.type == type).map Mention.name

/-- Every table of a scope is continued by the declarations that belong there, and by nothing else.
The names are new and different. -/
structure Continued (s : Scope) (ds : List Mention) (t : Scope) : Prop where
  owner : t.owner = s.owner
  parameters : t.parameters = s.parameters
  locals : t.locals.entries = s.locals.entries ++ ds.filterMap newLocal?
  counters : t.counters.names = s.counters.names ++ ds.filterMap (newCounter? false)
  headerCounters :
    t.headerCounters.names = s.headerCounters.names ++ ds.filterMap (newCounter? true)
  elements : t.elements.entries = s.elements.entries ++ ds.filterMap newElement?
  inScope : t.inScope.names = s.inScope.names ++ ds.map Mention.name
  index : ∀ type, t.namesOfType type = s.namesOfType type ++ namesWithType type ds
  free : ∀ d ∈ ds, d.name ∉ s.takenNames
  distinct : (ds.map Mention.name).Nodup

theorem continued_enter {s : Scope} {d : Mention} (h : d.name ∉ s.takenNames) :
    Continued s [d] (enter s d) := by
  have hfree := h
  simp only [mem_takenNames_iff, declaredNames_eq, List.mem_append, not_or] at hfree
  obtain ⟨⟨-, hlocals, ⟨hcounters, hheader⟩, helements⟩, hscope⟩ := hfree
  have hindex (type : String) :
      (enter s d).namesOfType type = s.namesOfType type ++ namesWithType type [d] := by
    rw [namesOfType_enter]
    by_cases htype : d.role.type = type <;> simp [namesWithType, htype]
  refine ⟨?_, parameters_enter s d, ?_, ?_, ?_, ?_, ?_, hindex, by simpa using h, by simp⟩
  all_goals
    obtain ⟨role, name⟩ := d
    rcases role with type | ⟨_ | _⟩ | type <;>
      simp [enter, newLocal?, newCounter?, newElement?, entries_insert_of_notMem,
        names_insert_of_notMem, hlocals, hcounters, hheader, helements, hscope]

theorem continued_of_declares {s t : Scope} {ds : List Mention} (h : Declares s ds t) :
    Continued s ds t := by
  have hfree := h.free
  have hdistinct := h.nodup_names
  induction h with
  | nil s => constructor <;> simp [namesWithType]
  | @cons s t d ds hd rest ih =>
      have hfirst := continued_enter hd
      have hrest := ih rest.free rest.nodup_names
      have hnames (type : String) :
          namesWithType type (d :: ds) = namesWithType type [d] ++ namesWithType type ds := by
        rw [namesWithType, ← List.singleton_append, List.filter_append, List.map_append]
        rfl
      refine ⟨hrest.owner.trans hfirst.owner, hrest.parameters.trans hfirst.parameters, ?_, ?_, ?_,
        ?_, ?_, ?_, hfree, hdistinct⟩
      · rw [hrest.locals, hfirst.locals, List.append_assoc, ← List.filterMap_append]
        rfl
      · rw [hrest.counters, hfirst.counters, List.append_assoc, ← List.filterMap_append]
        rfl
      · rw [hrest.headerCounters, hfirst.headerCounters, List.append_assoc, ← List.filterMap_append]
        rfl
      · rw [hrest.elements, hfirst.elements, List.append_assoc, ← List.filterMap_append]
        rfl
      · rw [hrest.inScope, hfirst.inScope, List.append_assoc, ← List.map_append]
        rfl
      · intro type
        rw [hrest.index, hfirst.index, List.append_assoc, hnames]

/-- A name stands for an original one: the map had it from the start, or it is a parameter or field
of the program, or it was declared since. -/
def Comes (renames : OrderedMap String String) (before : Scope) (ds : List Mention)
    (original name : String) : Prop :=
  renames.get? original = some name ∨ name ∈ before.parameters.keys ∨ name ∈ ds.map Mention.name

theorem Comes.append {renames : OrderedMap String String} {before : Scope} {ds : List Mention}
    {original name : String} (h : Comes renames before ds original name) (es : List Mention) :
    Comes renames before (ds ++ es) original name := by
  rw [Comes, List.map_append]
  exact h.imp_right (Or.imp_right (List.mem_append_left _))

theorem comes_of_declared {renames : OrderedMap String String} {before : Scope}
    (ds : List Mention) {d : Mention} (original : String) :
    Comes renames before (ds ++ [d]) original d.name :=
  .inr (.inr (List.mem_map_of_mem (List.mem_append_right _ List.mem_cons_self)))

/-- The state of a splice that has made some declarations so far. -/
structure Reached (renames : OrderedMap String String) (before : Scope) (ds : List Mention)
    (s : Splice) : Prop where
  declares : Declares before ds s.scope
  comes : ∀ original name, s.renames.get? original = some name →
    Comes renames before ds original name

theorem reached_start (renames : OrderedMap String String) (p : Program) :
    Reached renames p.scope [] (start renames p) where
  declares := .nil _
  comes _ _ h := .inl h

/-- A local of a splice has one of the names that are numbered. -/
def NumberedLocal (d : Mention) : Prop :=
  d.role.isBinder = false → ∃ n, d.name = numbered "var" n

variable {choose : Chooser} {s t : Splice} {m m' : Mention} {ms ms' : List Mention}
  {renames : OrderedMap String String} {before : Scope} {ds : List Mention}

theorem Reached.declareAs (hs : Reached renames before ds s) {d : Mention} (original : String)
    (hd : d.name ∉ s.scope.takenNames) :
    Reached renames before (ds ++ [d]) (declareAs s original d) where
  declares := hs.declares.append (.cons hd (.nil _))
  comes other name h := by
    simp only [SpliceSteps.declareAs, OrderedMap.get?_insert] at h
    split at h
    · obtain rfl := Option.some.inj h
      exact comes_of_declared ds other
    · exact (hs.comes other name h).append [d]

theorem numbered_freshLocal (scope : Scope) : ∃ n, scope.freshLocal = numbered "var" n := by
  obtain ⟨n, -, hname, -, -⟩ :=
    firstFree_spec scope (numbered_injective "var") scope.locals.size
  exact ⟨n, hname⟩

theorem reached_step (hchoose : Lawful choose) (h : Step choose s m m' t)
    (hs : Reached renames before ds s) :
    ∃ es, Reached renames before (ds ++ es) t ∧ es.Sublist [m'] ∧
      bindersOf es = bindersOf [m'] ∧ (∀ d ∈ es, NumberedLocal d) ∧
      Comes renames before (ds ++ es) m.name m'.name := by
  have hparameters := hs.declares.parameters_eq
  cases h with
  | replaced h =>
      rw [← List.append_nil ds] at hs
      exact ⟨[], hs, List.nil_sublist _, rfl, List.forall_mem_nil _, hs.comes _ _ h⟩
  | kept hnew h =>
      rw [hparameters] at h
      rw [← List.append_nil ds] at hs
      exact ⟨[], hs, List.nil_sublist _, rfl, List.forall_mem_nil _,
        .inr (.inl ((mem_keys_iff _ _).mpr ⟨_, h⟩))⟩
  | @chosen type name replacement hnew hname hoffer h =>
      -- Declarations add no parameters, so what is on offer was there before the splice.
      have hmem : replacement ∈ before.parameters.keys := by
        rw [mem_keys_iff, ← hparameters, h]
        exact ⟨type, get?_of_mem_candidates (hchoose _ _ hoffer)⟩
      rw [← List.append_nil ds] at hs
      refine ⟨[], ⟨hs.declares, ?_⟩, List.nil_sublist _, rfl, List.forall_mem_nil _,
        .inr (.inl hmem)⟩
      intro original other hget
      simp only [OrderedMap.get?_insert] at hget
      split at hget
      · obtain rfl := Option.some.inj hget
        exact .inr (.inl hmem)
      · exact hs.comes original other hget
  | @declared type name replacement hnew hname hoffer h =>
      refine ⟨[⟨.variable type, replacement⟩],
        hs.declareAs name (h ▸ freshLocal_notMem s.scope), List.Sublist.refl _, rfl, ?_,
        comes_of_declared ds name⟩
      refine List.forall_mem_singleton.mpr fun _ => ?_
      exact h ▸ numbered_freshLocal s.scope
  | @bound role name replacement hrole h =>
      refine ⟨[⟨role, replacement⟩],
        hs.declareAs name (h ▸ binderName_notMem s.scope _ (freshFor_notMem s.scope _)),
        List.Sublist.refl _, rfl, ?_, comes_of_declared ds name⟩
      refine List.forall_mem_singleton.mpr fun hvariable => ?_
      cases hrole.symm.trans hvariable

theorem reached_steps (hchoose : Lawful choose) (h : Steps choose s ms ms' t)
    (hs : Reached renames before ds s) :
    ∃ es, Reached renames before (ds ++ es) t ∧ es.Sublist ms' ∧
      bindersOf es = bindersOf ms' ∧ (∀ d ∈ es, NumberedLocal d) ∧
      List.Forall₂ (fun m m' => Comes renames before (ds ++ es) m.name m'.name) ms ms' := by
  induction h generalizing ds with
  | nil s =>
      rw [← List.append_nil ds] at hs
      exact ⟨[], hs, List.nil_sublist _, rfl, List.forall_mem_nil _, .nil⟩
  | @cons s t u m m' ms ms' first rest ih =>
      obtain ⟨es, ht, hsub, hbinders, hnumbered, hcomes⟩ := reached_step hchoose first hs
      obtain ⟨fs, hu, hsub', hbinders', hnumbered', hcomes'⟩ := ih ht
      rw [List.append_assoc] at hu hcomes'
      refine ⟨es ++ fs, hu, hsub.append hsub', ?_,
        List.forall_mem_append.mpr ⟨hnumbered, hnumbered'⟩, .cons ?_ hcomes'⟩
      · rw [bindersOf_append, hbinders, hbinders', ← bindersOf_append, List.singleton_append]
      · rw [← List.append_assoc]
        exact hcomes.append fs

mutual

/-- Names weigh nothing. -/
theorem weight_shape (e : Expr) : weight (shape e) = weight e := by
  cases e with
  | literal value type => rfl
  | «variable» name type => rfl
  | unary op operand => simp only [shape, weight, weight_shape operand]
  | binary op left right => simp only [shape, weight, weight_shape left, weight_shape right]
  | use component receiver args =>
      cases receiver with
      | none => simp only [shape, weight, weightEach_shape args]
      | some receiver => simp only [shape, weight, weight_shape receiver, weightEach_shape args]
  | foreign f => rfl

theorem weightEach_shape (args : List Expr) : weightEach (shapeEach args) = weightEach args := by
  cases args with
  | nil => rfl
  | cons e rest => simp only [shapeEach, weightEach, weight_shape e, weightEach_shape rest]

end

theorem weightOfTest_shape (test : Test) : weightOfTest (shapeTest test) = weightOfTest test := by
  cases test with
  | concrete e => exact weight_shape e
  | angelic remembered => cases remembered <;> rfl
  | blank => rfl
  | unknown => rfl

mutual

theorem weightOfStmt_shape (s : Stmt) : weightOfStmt (shapeStmt s) = weightOfStmt s := by
  cases s with
  | assign indent target value => simp only [shapeStmt, weightOfStmt, weight_shape]
  | call indent function => exact weight_shape function
  | branch indent test body =>
      simp only [shapeStmt, weightOfStmt, weightOfTest_shape, weightOfBlock_shape body]
  | loop indent head test body =>
      simp only [shapeStmt, weightOfStmt, weightOfTest_shape, weightOfBlock_shape body]
  | foreach indent name type container body =>
      simp only [shapeStmt, weightOfStmt, weight_shape, weightOfBlock_shape body]
  | foreign f => rfl

theorem weightOfBlock_shape (body : List Stmt) :
    weightOfBlock (shapeBlock body) = weightOfBlock body := by
  cases body with
  | nil => rfl
  | cons s rest =>
      simp only [shapeBlock, weightOfBlock, weightOfStmt_shape s, weightOfBlock_shape rest]

end

theorem weightOfNode_shape (n : Node) : weightOfNode (shapeNode n) = weightOfNode n := by
  cases n with
  | expr e => exact weight_shape e
  | stmt s => exact weightOfStmt_shape s
  | text text => rfl
  | absent => rfl

/-- What a splice has made of a fragment, with what it declared. The fragment is as it was but for
its names, and the program but for its scope, which is continued. There is a declaration for each
name that a loop of the fragment binds, in the part that it has there. All others are new locals.
Each name comes from somewhere. -/
structure Framed (renames : OrderedMap String String) (p : Program) (n : Node) (r : Fitted)
    (ds : List Mention) : Prop where
  fault : r.fault = none
  shape : shapeNode r.fragment = shapeNode n
  weight : weightOfNode r.fragment = weightOfNode n
  program : r.program = { p with scope := r.program.scope }
  scope : Continued p.scope ds r.program.scope
  declared : ds.Sublist (mentionsInNode r.fragment)
  binders : bindersOf ds = bindersOf (mentionsInNode r.fragment)
  locals : ∀ d ∈ ds, NumberedLocal d
  replacements : ∀ original name, r.renames.get? original = some name →
    Comes renames p.scope ds original name
  names : List.Forall₂ (fun m m' => m'.role = m.role ∧ Comes renames p.scope ds m.name m'.name)
    (mentionsInNode n) (mentionsInNode r.fragment)

theorem fit_framed (choose : Chooser) (hchoose : Lawful choose)
    (renames : OrderedMap String String) (p : Program) (n : Node) (hknown : nodeKnown n = true) :
    ∃ ds, Framed renames p n (fit choose renames p n) ds := by
  have hsteps := fit_steps choose renames p hknown
  have hshape := shapeNode_fit choose renames p hknown
  obtain ⟨ds, hreached, hsub, hbinders, hnumbered, hcomes⟩ :=
    reached_steps hchoose hsteps (reached_start renames p)
  refine ⟨ds, fault_fit choose renames p hknown, hshape, ?_, rfl,
    continued_of_declares hreached.declares, hsub, hbinders, hnumbered, hreached.comes, ?_⟩
  · rw [← weightOfNode_shape, hshape, weightOfNode_shape]
  · exact List.Forall₂.mp (fun _ _ => And.intro) (roles_of_steps hsteps) hcomes

/-- A loop in a loop of the same name, and a loop without a counter behind it. -/
def sameNameTwice : Node :=
  .stmt (.foreach 1 "x" "Item" (.variable "xs" "List")
    [.loop 2 (.counting "x" false) (.angelic (some (.variable "x" "int")))
      [.assign 3 (.variable "a" "int") (.variable "b" "int")],
    .loop 2 (.testing (some "w")) (.angelic none)
      [.assign 3 (.variable "c" "char") (.variable "i" "int")]])

/-- A program with a reserved name, one of whose parameters is no longer in scope. -/
def disordered : Program :=
  let p := Program.new "f" "void" (OrderedMap.ofList [("a", "int"), ("xs", "List")])
  { p with scope := (p.scope.reserve "i").release "a" }

theorem fit_framed_sameNameTwice :
    Lawful pickFirst ∧ nodeKnown sameNameTwice = true ∧
      let r := fit pickFirst (OrderedMap.ofList [("b", "q")]) disordered sameNameTwice
      (∃ ds, Framed (OrderedMap.ofList [("b", "q")]) disordered sameNameTwice r ds) ∧
        (mentionsInNode r.fragment).map Mention.name =
          ["x", "xs", "j", "j", "a", "q", "var0", "a"] ∧
        r.program.scope.inScope.names = ["xs", "i", "x", "j", "var0"] :=
  ⟨lawful_pickFirst, rfl,
    fit_framed pickFirst lawful_pickFirst (OrderedMap.ofList [("b", "q")]) disordered
      sameNameTwice rfl,
    by decide +kernel, by decide +kernel⟩

end FragmentSynthesis.Proofs.SpliceFrames
