import FragmentSynthesis.Proofs.Replacements
import FragmentSynthesis.Proofs.ScopeTables

namespace FragmentSynthesis.Proofs.ScopeHistories

open FragmentSynthesis.Expression
open FragmentSynthesis.Faults
open FragmentSynthesis.NameSets
open FragmentSynthesis.OrderedMaps
open FragmentSynthesis.Programs
open FragmentSynthesis.Proofs.Declarations
open FragmentSynthesis.Proofs.Mentions
open FragmentSynthesis.Proofs.Replacements
open FragmentSynthesis.Proofs.ScopeTables
open FragmentSynthesis.Proofs.SpliceSteps
open FragmentSynthesis.Scopes
open FragmentSynthesis.Splicing
open FragmentSynthesis.Statement

/-- Whatever state it starts in, a part of a splice changes the scope by declarations only. -/
def Extending {α : Type} (x : SpliceM α) : Prop :=
  ∀ s : Splice, ∃ ds, Declares s.scope ds (x.run s).2.scope

theorem extending_pure {α : Type} (a : α) : Extending (pure a : SpliceM α) :=
  fun s => ⟨[], .nil s.scope⟩

theorem Extending.bind {α β : Type} {x : SpliceM α} {f : α → SpliceM β} (hx : Extending x)
    (hf : ∀ a, Extending (f a)) : Extending (x >>= f) := by
  intro s
  obtain ⟨ds, hds⟩ := hx s
  obtain ⟨es, hes⟩ := hf (x.run s).1 (x.run s).2
  exact ⟨ds ++ es, hds.append hes⟩

theorem extending_stop (fault : Fault) : Extending (stop fault) :=
  fun s => ⟨[], .nil s.scope⟩

theorem extending_of_steps {x : SpliceM String}
    (hstopped : ∀ s fault, s.fault = some fault → (x.run s).2 = s)
    {choose : Chooser} {m : Mention}
    (hstep : ∀ s, s.fault = none →
      Step choose s m ⟨m.role, (x.run s).1⟩ (x.run s).2) : Extending x := by
  intro s
  cases hs : s.fault with
  | none =>
      obtain ⟨ds, hds, -⟩ := declares_of_step (hstep s hs)
      exact ⟨ds, hds⟩
  | some fault =>
      rw [hstopped s fault hs]
      exact ⟨[], .nil s.scope⟩

theorem spliceName_extending (choose : Chooser) (name type : String) :
    Extending (spliceName choose name type) := by
  refine extending_of_steps (m := ⟨.variable type, name⟩) ?_
    (fun s hs => spliceName_step choose s hs name type)
  intro s fault hs
  simp only [spliceName, StateT.run_bind, StateT.run_get, pure_bind, hs]
  rfl

theorem bindCounter_extending (name : String) (inHeader : Bool) :
    Extending (bindCounter name inHeader) := by
  refine extending_of_steps (m := ⟨.counter inHeader, name⟩) ?_
    (fun s hs => bindCounter_step pickFirst s hs name inHeader)
  intro s fault hs
  simp only [bindCounter, StateT.run_bind, StateT.run_get, pure_bind, hs]
  rfl

theorem bindElement_extending (name type : String) : Extending (bindElement name type) := by
  refine extending_of_steps (m := ⟨.element type, name⟩) ?_
    (fun s hs => bindElement_step pickFirst s hs name type)
  intro s fault hs
  simp only [bindElement, StateT.run_bind, StateT.run_get, pure_bind, hs]
  rfl

variable (choose : Chooser)

mutual

theorem spliceExpr_extending (e : Expr) : Extending (spliceExpr choose e) := by
  cases e with
  | literal value type => exact extending_pure _
  | «variable» name type =>
      exact (spliceName_extending choose name type).bind fun _ => extending_pure _
  | unary op operand => exact (spliceExpr_extending operand).bind fun _ => extending_pure _
  | binary op left right =>
      refine (spliceExpr_extending left).bind fun _ => ?_
      exact (spliceExpr_extending right).bind fun _ => extending_pure _
  | use component receiver args =>
      cases receiver with
      | none => exact (spliceArgs_extending args).bind fun _ => extending_pure _
      | some receiver =>
          refine (spliceExpr_extending receiver).bind fun _ => ?_
          exact (spliceArgs_extending args).bind fun _ => extending_pure _
  | foreign f => exact (extending_stop _).bind fun _ => extending_pure _

theorem spliceArgs_extending (args : List Expr) : Extending (spliceArgs choose args) := by
  cases args with
  | nil => exact extending_pure _
  | cons e rest =>
      refine (spliceExpr_extending e).bind fun _ => ?_
      exact (spliceArgs_extending rest).bind fun _ => extending_pure _

end

theorem spliceTest_extending (test : Test) : Extending (spliceTest choose test) := by
  cases test with
  | concrete e => exact (spliceExpr_extending choose e).bind fun _ => extending_pure _
  | angelic remembered =>
      cases remembered with
      | none => exact extending_pure _
      | some e => exact (spliceExpr_extending choose e).bind fun _ => extending_pure _
  | blank => exact extending_pure _
  | unknown => exact (extending_stop _).bind fun _ => extending_pure _

theorem spliceHead_extending (head : LoopHead) : Extending (spliceHead head) := by
  cases head with
  | counting counter declared =>
      exact (bindCounter_extending counter declared).bind fun _ => extending_pure _
  | testing counter => exact extending_pure _

mutual

theorem spliceStmt_extending (x : Stmt) : Extending (spliceStmt choose x) := by
  cases x with
  | assign indent target value =>
      refine (spliceExpr_extending choose target).bind fun _ => ?_
      exact (spliceExpr_extending choose value).bind fun _ => extending_pure _
  | call indent function =>
      exact (spliceExpr_extending choose function).bind fun _ => extending_pure _
  | branch indent test body =>
      refine (spliceTest_extending choose test).bind fun _ => ?_
      exact (spliceBlock_extending body).bind fun _ => extending_pure _
  | loop indent head test body =>
      refine (spliceHead_extending head).bind fun _ => ?_
      refine (spliceTest_extending choose test).bind fun _ => ?_
      exact (spliceBlock_extending body).bind fun _ => extending_pure _
  | foreach indent name type container body =>
      refine (bindElement_extending name type).bind fun _ => ?_
      refine (spliceExpr_extending choose container).bind fun _ => ?_
      exact (spliceBlock_extending body).bind fun _ => extending_pure _
  | foreign f => exact (extending_stop _).bind fun _ => extending_pure _

theorem spliceBlock_extending (body : List Stmt) : Extending (spliceBlock choose body) := by
  cases body with
  | nil => exact extending_pure _
  | cons x rest =>
      refine (spliceStmt_extending x).bind fun _ => ?_
      exact (spliceBlock_extending rest).bind fun _ => extending_pure _

end

theorem spliceNode_extending (n : Node) : Extending (spliceNode choose n) := by
  cases n with
  | expr e => exact (spliceExpr_extending choose e).bind fun _ => extending_pure _
  | stmt x => exact (spliceStmt_extending choose x).bind fun _ => extending_pure _
  | text text => exact (extending_stop _).bind fun _ => extending_pure _
  | absent => exact (extending_stop _).bind fun _ => extending_pure _

/-- Also where it fails, a splice has declared the names that it came to before. -/
theorem fit_declares (renames : OrderedMap String String) (p : Program) (n : Node) :
    ∃ ds, Declares p.scope ds (fit choose renames p n).program.scope :=
  spliceNode_extending choose n (start renames p)

/-- A call to a program. -/
inductive Call
  | addLocal (name type : String)
  | addCounter (name : String) (inHeader : Bool)
  | addElement (name type : String)
  | reserve (name : String)
  | release (name : String)
  | reindex
  | copy
  | fit (choose : Chooser) (renames : OrderedMap String String) (fragment : Node)
  | addStatement (s : Stmt)
  | setResult (e : Option Expr)

/-- A call that fails leaves the program as it was. -/
def attempt (p : Program) : Except Fault Program → Program × Option Fault
  | .ok q => (q, none)
  | .error fault => (p, some fault)

/-- The program with another scope. -/
def withScope (p : Program) (s : Scope) : Program :=
  { p with scope := s }

/-- The program after a call, and the fault that the call ended with, if any. What a splice declared
before its fault stays declared. -/
def call (p : Program) : Call → Program × Option Fault
  | .addLocal name type => attempt p ((p.scope.addLocal name type).map (withScope p))
  | .addCounter name inHeader => attempt p ((p.scope.addCounter name inHeader).map (withScope p))
  | .addElement name type => attempt p ((p.scope.addElement name type).map (withScope p))
  | .reserve name => (withScope p (p.scope.reserve name), none)
  | .release name => (withScope p (p.scope.release name), none)
  | .reindex => (withScope p p.scope.reindexed, none)
  | .copy => attempt p p.copy
  | .fit choose renames fragment =>
      let r := Splicing.fit choose renames p fragment
      (r.program, r.fault)
  | .addStatement s => (p.addStatement s, none)
  | .setResult e => (p.setResult e, none)

/-- The program after some calls, one after the other. -/
def run (p : Program) (calls : List Call) : Program :=
  calls.foldl (fun p c => (call p c).1) p

theorem run_append (p : Program) (calls others : List Call) :
    run p (calls ++ others) = run (run p calls) others :=
  List.foldl_append

/-- What a call is to declare, if it is one that declares a name. -/
def Call.declares? : Call → Option Mention
  | .addLocal name type => some ⟨.variable type, name⟩
  | .addCounter name inHeader => some ⟨.counter inHeader, name⟩
  | .addElement name type => some ⟨.element type, name⟩
  | _ => none

theorem isDeclared_iff (s : Scope) (name : String) :
    s.isDeclared name = true ↔ name ∈ s.takenNames :=
  decide_eq_true_iff

theorem call_of_taken {p : Program} {c : Call} {d : Mention} (hc : c.declares? = some d)
    (h : p.scope.isDeclared d.name = true) :
    call p c = (p, some (.alreadyDeclared d.name p.name)) := by
  cases c <;> cases hc <;>
    simp [call, Scope.addLocal, Scope.addCounter, Scope.addElement, Scope.declare, h, attempt,
      Except.map, Program.name]

theorem call_of_free {p : Program} {c : Call} {d : Mention} (hc : c.declares? = some d)
    (h : d.name ∉ p.scope.takenNames) : call p c = (withScope p (enter p.scope d), none) := by
  cases c <;> cases hc
  · rw [call, addLocal_eq _ h]
    rfl
  · rw [call, addCounter_eq _ h]
    rfl
  · rw [call, addElement_eq _ h]
    rfl

/-- All that a call can do to the scope of a program. -/
theorem scope_call (p : Program) (c : Call) :
    (∃ ds, Declares p.scope ds (call p c).1.scope) ∨
      (call p c).1.scope = p.scope.reindexed ∨
      (∃ name, (call p c).1.scope = p.scope.reserve name) ∨
      ∃ name, c = .release name ∧ (call p c).1.scope = p.scope.release name := by
  have hadd (d : Mention) (hc : c.declares? = some d) :
      ∃ ds, Declares p.scope ds (call p c).1.scope := by
    by_cases h : d.name ∈ p.scope.takenNames
    · rw [call_of_taken hc ((isDeclared_iff _ _).mpr h)]
      exact ⟨[], .nil _⟩
    · rw [call_of_free hc h]
      exact ⟨[d], .cons h (.nil _)⟩
  cases c with
  | addLocal name type => exact .inl (hadd _ rfl)
  | addCounter name inHeader => exact .inl (hadd _ rfl)
  | addElement name type => exact .inl (hadd _ rfl)
  | reserve name => exact .inr (.inr (.inl ⟨name, rfl⟩))
  | release name => exact .inr (.inr (.inr ⟨name, rfl, rfl⟩))
  | reindex => exact .inr (.inl rfl)
  | copy =>
      rw [call, Program.copy]
      split
      · exact .inr (.inl rfl)
      · exact .inl ⟨[], .nil _⟩
  | fit choose renames fragment => exact .inl (fit_declares choose renames p fragment)
  | addStatement s => exact .inl ⟨[], .nil _⟩
  | setResult e => exact .inl ⟨[], .nil _⟩

theorem consistent_call {p : Program} (hp : Consistent p.scope) (c : Call) :
    Consistent (call p c).1.scope := by
  rcases scope_call p c with ⟨ds, h⟩ | h | ⟨name, h⟩ | ⟨name, -, h⟩
  · exact hp.declares h
  · rw [h]
    exact hp.reindexed
  · rw [h]
    exact hp.reserve name
  · rw [h]
    exact hp.release name

theorem owner_of_declares {s t : Scope} {ds : List Mention} (h : Declares s ds t) :
    t.owner = s.owner := by
  induction h with
  | nil s => rfl
  | cons hfree rest ih =>
      rw [ih, enter]
      split <;> rfl

/-- What no call changes: the owner and the parameters, and what was declared once. -/
structure Kept (s t : Scope) : Prop where
  owner_eq : t.owner = s.owner
  parameters_eq : t.parameters = s.parameters
  declarations_subset : declarations s ⊆ declarations t

theorem kept_call (p : Program) (c : Call) : Kept p.scope (call p c).1.scope := by
  rcases scope_call p c with ⟨ds, h⟩ | h | ⟨name, h⟩ | ⟨name, -, h⟩
  · exact ⟨owner_of_declares h, h.parameters_eq, fun _ => mem_declarations_of_declares h⟩
  all_goals
    rw [h]
    exact ⟨rfl, rfl, List.Subset.refl _⟩

theorem kept_run (p : Program) (calls : List Call) : Kept p.scope (run p calls).scope := by
  induction calls generalizing p with
  | nil => exact ⟨rfl, rfl, List.Subset.refl _⟩
  | cons c rest ih =>
      have hfirst := kept_call p c
      have hrest := ih (call p c).1
      exact ⟨hrest.owner_eq.trans hfirst.owner_eq, hrest.parameters_eq.trans hfirst.parameters_eq,
        List.Subset.trans hfirst.declarations_subset hrest.declarations_subset⟩

theorem consistent_run {p : Program} (hp : Consistent p.scope) (calls : List Call) :
    Consistent (run p calls).scope := by
  induction calls generalizing p with
  | nil => exact hp
  | cons c rest ih => exact ih (consistent_call hp c)

/-- No call of a run takes a name out of scope that is declared at that point. -/
def Spares (p : Program) (calls : List Call) : Prop :=
  ∀ before after name, calls = before ++ .release name :: after →
    name ∉ declaredNames (run p before).scope

theorem spares_nil (p : Program) : Spares p [] := by
  intro before after name h
  cases before <;> cases h

theorem spares_cons {p : Program} {c : Call} {rest : List Call} :
    Spares p (c :: rest) ↔
      (∀ name, c = .release name → name ∉ declaredNames p.scope) ∧ Spares (call p c).1 rest := by
  constructor
  · intro h
    constructor
    · rintro name rfl
      exact h [] rest name rfl
    · rintro before after name rfl
      exact h (c :: before) after name rfl
  · rintro ⟨hfirst, hrest⟩ before after name h
    cases before with
    | nil =>
        obtain ⟨rfl, -⟩ := List.cons.inj h
        exact hfirst name rfl
    | cons b before =>
        rw [List.cons_append, List.cons.injEq] at h
        obtain ⟨rfl, h⟩ := h
        exact hrest before after name h

/-- Everything that is declared is in scope. -/
def AllInScope (s : Scope) : Prop :=
  declaredNames s ⊆ s.inScope.names

theorem AllInScope.enter {s : Scope} (hs : AllInScope s) {d : Mention}
    (h : d.name ∉ s.takenNames) : AllInScope (enter s d) := by
  have hscope : (Declarations.enter s d).inScope = s.inScope.insert d.name := by
    unfold Declarations.enter
    split <;> rfl
  intro name hname
  rw [hscope, NameSet.mem_insert]
  rw [(declaredNames_enter h).mem_iff, List.mem_cons] at hname
  rcases hname with rfl | hname
  · exact .inr rfl
  · exact .inl (hs hname)

theorem AllInScope.declares {s t : Scope} {ds : List Mention} (hs : AllInScope s)
    (h : Declares s ds t) : AllInScope t := by
  induction h with
  | nil s => exact hs
  | cons hfree rest ih => exact ih (hs.enter hfree)

theorem AllInScope.call {p : Program} (hp : AllInScope p.scope) {c : Call}
    (hc : ∀ name, c = .release name → name ∉ declaredNames p.scope) :
    AllInScope (call p c).1.scope := by
  rcases scope_call p c with ⟨ds, h⟩ | h | ⟨name, h⟩ | ⟨name, hrelease, h⟩
  · exact hp.declares h
  · rw [h]
    exact hp
  · rw [h]
    intro other hother
    exact (NameSet.mem_insert _ _ _).mpr (.inl (hp hother))
  · rw [h]
    intro other hother
    refine (NameSet.mem_erase _ _ _).mpr ⟨?_, hp hother⟩
    rintro rfl
    exact hc _ hrelease hother

theorem allInScope_run {p : Program} (hp : AllInScope p.scope) {calls : List Call}
    (h : Spares p calls) : AllInScope (run p calls).scope := by
  induction calls generalizing p with
  | nil => exact hp
  | cons c rest ih =>
      obtain ⟨hc, hrest⟩ := spares_cons.mp h
      exact ih (hp.call hc) hrest

theorem allInScope_new (name returnType : String) (parameters : OrderedMap String String) :
    AllInScope (Program.new name returnType parameters).scope := by
  intro other hother
  rw [declaredNames_eq] at hother
  have hkeys : parameters.keys ++ [] = parameters.keys := List.append_nil _
  exact (NameSet.mem_ofList _ _).mpr (hkeys ▸ hother)

/-- The tables of a scope have no name in common and give all variables, each once and with its
type. The index lists the names of each type once, before and after it is made anew. -/
structure InStep (s : Scope) : Prop where
  disjoint : (tables s).Pairwise fun table other =>
    (table.map Prod.fst).Disjoint (other.map Prod.fst)
  all : s.all.entries = declarations s
  allOnce : s.all.keys.Nodup
  typed : ∀ name type, s.typeOf? name = some type ↔ (name, type) ∈ declarations s
  listedOnce : ∀ type, (s.namesOfType type).Nodup
  listed : ∀ type name, name ∈ s.namesOfType type ↔ s.typeOf? name = some type
  reindexed : ∀ type, (s.reindexed.namesOfType type).Perm (s.namesOfType type)

theorem inStep_of_consistent {s : Scope} (hs : Consistent s) : InStep s where
  disjoint := hs.disjoint
  all := entries_all hs.distinct
  allOnce := s.all.nodup_keys
  typed := hs.typeOf?_eq_some_iff
  listedOnce := hs.listedOnce
  listed type name := by rw [hs.listed, hs.typeOf?_eq_some_iff]
  reindexed := hs.namesOfType_perm

/-- A call that declares a name is refused if the name is taken, and then nothing is changed. Else
the name is entered with its type. -/
def DeclaresOrRefuses (p : Program) (c : Call) (d : Mention) : Prop :=
  (p.scope.isDeclared d.name = true →
    call p c = (p, some (.alreadyDeclared d.name p.name))) ∧
  (p.scope.isDeclared d.name = false → (call p c).2 = none ∧
    (declarations (call p c).1.scope).Perm ((d.name, d.role.type) :: declarations p.scope))

theorem declaresOrRefuses {c : Call} {d : Mention} (hc : c.declares? = some d) (p : Program) :
    DeclaresOrRefuses p c d := by
  constructor
  · exact call_of_taken hc
  · intro h
    have hfree : d.name ∉ p.scope.takenNames := by
      rw [← isDeclared_iff, h]
      exact Bool.false_ne_true
    rw [call_of_free hc hfree]
    exact ⟨rfl, declarations_enter hfree⟩

theorem run_inStep (name returnType : String) (parameters : OrderedMap String String)
    (calls : List Call) :
    let new := Program.new name returnType parameters
    let p := run new calls
    InStep p.scope ∧ p.scope.parameters = parameters ∧
      (∀ before after, calls = before ++ after → ∀ v type,
        (run new before).scope.typeOf? v = some type → p.scope.typeOf? v = some type) ∧
      (Spares new calls → ∀ v ∈ p.scope.all.keys, v ∈ p.scope.inScope.names) ∧
      ∀ c d, c.declares? = some d → DeclaresOrRefuses p c d := by
  intro new p
  have hnew : Consistent new.scope := consistent_ofParameters name parameters
  have hp : Consistent p.scope := consistent_run hnew calls
  refine ⟨inStep_of_consistent hp, (kept_run new calls).parameters_eq, ?_, ?_, ?_⟩
  · rintro before after rfl v type h
    have hlast : p = run (run new before) after := run_append new before after
    rw [hp.typeOf?_eq_some_iff, hlast]
    exact (kept_run _ after).declarations_subset
      (((consistent_run hnew before).typeOf?_eq_some_iff v type).mp h)
  · intro h v hv
    rw [OrderedMap.keys, entries_all hp.distinct] at hv
    exact allInScope_run (allInScope_new name returnType parameters) h hv
  · intro c d hc
    exact declaresOrRefuses hc p

/-- A name declared twice, a splice that is stopped after its first variable, and the release of a
name that was only reserved. -/
def disturbed : List Call :=
  [.addCounter "i" true, .addLocal "i" "char", .reserve "k",
    .fit pickFirst OrderedMap.empty
      (.expr (.binary .add (.variable "z" "long") (.foreign .hole))),
    .release "k", .copy, .addElement "k" "int", .reindex]

example :
    declarations (run (Program.new "f" "void" (OrderedMap.ofList [("a", "int")])) disturbed).scope =
      [("a", "int"), ("var0", "long"), ("i", "int"), ("k", "int")] := by
  decide

theorem run_inStep_disturbed :
    Spares (Program.new "f" "void" (OrderedMap.ofList [("a", "int")])) disturbed ∧
      InStep (run (Program.new "f" "void" (OrderedMap.ofList [("a", "int")])) disturbed).scope ∧
      ∀ v ∈ (run (Program.new "f" "void" (OrderedMap.ofList [("a", "int")]))
          disturbed).scope.all.keys,
        v ∈ (run (Program.new "f" "void" (OrderedMap.ofList [("a", "int")]))
          disturbed).scope.inScope.names := by
  have hspares : Spares (Program.new "f" "void" (OrderedMap.ofList [("a", "int")])) disturbed := by
    simp only [disturbed, spares_cons, spares_nil, reduceCtorEq, IsEmpty.forall_iff, implies_true,
      Call.release.injEq, forall_eq', and_true, true_and]
    decide
  have h := run_inStep "f" "void" (OrderedMap.ofList [("a", "int")]) disturbed
  exact ⟨hspares, h.1, h.2.2.2.1 hspares⟩

end FragmentSynthesis.Proofs.ScopeHistories
