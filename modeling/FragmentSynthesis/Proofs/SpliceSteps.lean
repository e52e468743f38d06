import FragmentSynthesis.Proofs.Declarations
import FragmentSynthesis.Proofs.FreshNames
import FragmentSynthesis.Proofs.KnownFragments
import FragmentSynthesis.Splicing

/-!
A splice as a sequence of steps, one for each name that the fragment mentions. What a step can do
is said once, and what a whole splice does follows from its steps.
-/

namespace FragmentSynthesis.Proofs.SpliceSteps

open FragmentSynthesis.Expression
open FragmentSynthesis.OrderedMaps
open FragmentSynthesis.Programs
open FragmentSynthesis.Proofs.Declarations
open FragmentSynthesis.Proofs.FreshNames
open FragmentSynthesis.Proofs.KnownFragments
open FragmentSynthesis.Proofs.Mentions
open FragmentSynthesis.Scopes
open FragmentSynthesis.Splicing
open FragmentSynthesis.Statement

/-- The fresh name that a scope has for each part. -/
def freshFor (scope : Scope) : Role → String
  | .variable _ => scope.freshLocal
  | .counter _ => scope.freshCounter
  | .element _ => scope.freshElement

theorem freshFor_notMem (scope : Scope) (role : Role) : freshFor scope role ∉ scope.takenNames := by
  cases role with
  | «variable» type => exact freshLocal_notMem scope
  | counter inHeader => exact freshCounter_notMem scope
  | element type => exact freshElement_notMem scope

theorem binderName_notMem (scope : Scope) (name : String) {fresh : String}
    (h : fresh ∉ scope.takenNames) : binderName scope name fresh ∉ scope.takenNames := by
  unfold binderName
  split
  · exact h
  · rename_i hname
    simpa [Scope.isDeclared] using hname

/-- A splice after a name was declared, as the replacement of another one. -/
def declareAs (s : Splice) (name : String) (d : Mention) : Splice :=
  { s with scope := enter s.scope d, renames := s.renames.insert name d.name }

/-- What a splice makes of one name, in what state it leaves itself. A variable takes the
replacement of its name, stays if it is a parameter of its type, or gets a replacement: one of the
parameters of its type, or a new local where there is none. A binder is declared. -/
inductive Step (choose : Chooser) : Splice → Mention → Mention → Splice → Prop
  | replaced {s : Splice} {type name replacement : String}
      (h : s.renames.get? name = some replacement) :
      Step choose s ⟨.variable type, name⟩ ⟨.variable type, replacement⟩ s
  | kept {s : Splice} {type name : String} (hnew : s.renames.get? name = none)
      (h : s.scope.parameters.get? name = some type) :
      Step choose s ⟨.variable type, name⟩ ⟨.variable type, name⟩ s
  | chosen {s : Splice} {type name replacement : String} (hnew : s.renames.get? name = none)
      (hname : s.scope.parameters.get? name ≠ some type) (hoffer : candidates s.scope type ≠ [])
      (h : replacement = choose s.offers.length (candidates s.scope type)) :
      Step choose s ⟨.variable type, name⟩ ⟨.variable type, replacement⟩
        { s with
          renames := s.renames.insert name replacement
          offers := s.offers ++ [candidates s.scope type] }
  | declared {s : Splice} {type name replacement : String} (hnew : s.renames.get? name = none)
      (hname : s.scope.parameters.get? name ≠ some type) (hoffer : candidates s.scope type = [])
      (h : replacement = s.scope.freshLocal) :
      Step choose s ⟨.variable type, name⟩ ⟨.variable type, replacement⟩
        (declareAs s name ⟨.variable type, replacement⟩)
  | bound {s : Splice} {role : Role} {name replacement : String} (hrole : role.isBinder = true)
      (h : replacement = binderName s.scope name (freshFor s.scope role)) :
      Step choose s ⟨role, name⟩ ⟨role, replacement⟩ (declareAs s name ⟨role, replacement⟩)

/-- The steps of a splice, with the names as they were and as they are made. -/
inductive Steps (choose : Chooser) : Splice → List Mention → List Mention → Splice → Prop
  | nil (s : Splice) : Steps choose s [] [] s
  | cons {s t u : Splice} {m m' : Mention} {ms ms' : List Mention} (first : Step choose s m m' t)
      (rest : Steps choose t ms ms' u) : Steps choose s (m :: ms) (m' :: ms') u

variable {choose : Chooser}

theorem Steps.single {s t : Splice} {m m' : Mention} (h : Step choose s m m' t) :
    Steps choose s [m] [m'] t :=
  .cons h (.nil t)

theorem Steps.append {s t u : Splice} {ms ms' ns ns' : List Mention} (h : Steps choose s ms ms' t)
    (h' : Steps choose t ns ns' u) : Steps choose s (ms ++ ns) (ms' ++ ns') u := by
  induction h with
  | nil s => exact h'
  | cons first rest ih => exact .cons first (ih h')

theorem Step.fault_eq {s t : Splice} {m m' : Mention} (h : Step choose s m m' t) :
    t.fault = s.fault := by
  cases h <;> rfl

theorem Steps.fault_eq {s t : Splice} {ms ms' : List Mention} (h : Steps choose s ms ms' t) :
    t.fault = s.fault := by
  induction h with
  | nil s => rfl
  | cons first rest ih => rw [ih, first.fault_eq]

variable (choose)

theorem spliceName_step (s : Splice) (hs : s.fault = none) (name type : String) :
    Step choose s ⟨.variable type, name⟩
      ⟨.variable type, ((spliceName choose name type).run s).1⟩
      ((spliceName choose name type).run s).2 := by
  obtain ⟨renames, scope, offers, fault⟩ := s
  subst hs
  cases hnew : renames.get? name with
  | some replacement =>
      have hrun : (spliceName choose name type).run ⟨renames, scope, offers, none⟩ =
          (replacement, ⟨renames, scope, offers, none⟩) := by
        simp only [spliceName, hnew, StateT.run_bind, StateT.run_get, pure_bind]
        rfl
      rw [hrun]
      exact .replaced hnew
  | none =>
      by_cases hname : scope.parameters.get? name = some type
      · have hrun : (spliceName choose name type).run ⟨renames, scope, offers, none⟩ =
            (name, ⟨renames, scope, offers, none⟩) := by
          simp only [spliceName, hnew, hname, StateT.run_bind, StateT.run_get, pure_bind, if_true]
          rfl
        rw [hrun]
        exact .kept hnew hname
      · by_cases hoffer : (candidates scope type).isEmpty = true
        · have hrun : (spliceName choose name type).run ⟨renames, scope, offers, none⟩ =
              (scope.freshLocal, Splice.record ⟨renames, scope, offers, none⟩ name
                scope.freshLocal (scope.addLocal scope.freshLocal type)) := by
            simp only [spliceName, hnew, hname, hoffer, StateT.run_bind, StateT.run_get, pure_bind,
              if_false, if_true]
            rfl
          rw [hrun, addLocal_eq type (freshLocal_notMem scope)]
          exact .declared hnew hname (List.isEmpty_iff.mp hoffer) rfl
        · have hrun : (spliceName choose name type).run ⟨renames, scope, offers, none⟩ =
              (choose offers.length (candidates scope type),
                ⟨renames.insert name (choose offers.length (candidates scope type)), scope,
                  offers ++ [candidates scope type], none⟩) := by
            simp only [spliceName, hnew, hname, hoffer, StateT.run_bind, StateT.run_get, pure_bind,
              if_false, Bool.false_eq_true]
            rfl
          rw [hrun]
          exact .chosen hnew hname (fun h => hoffer (List.isEmpty_iff.mpr h)) rfl

theorem bindCounter_step (s : Splice) (hs : s.fault = none) (name : String) (inHeader : Bool) :
    Step choose s ⟨.counter inHeader, name⟩
      ⟨.counter inHeader, ((bindCounter name inHeader).run s).1⟩
      ((bindCounter name inHeader).run s).2 := by
  let replacement := binderName s.scope name s.scope.freshCounter
  have hrun : (bindCounter name inHeader).run s =
      (replacement, s.record name replacement (s.scope.addCounter replacement inHeader)) := by
    simp only [bindCounter, hs, StateT.run_bind, StateT.run_get, pure_bind]
    rfl
  rw [hrun, addCounter_eq inHeader (binderName_notMem s.scope name (freshCounter_notMem s.scope))]
  exact .bound rfl rfl

theorem bindElement_step (s : Splice) (hs : s.fault = none) (name type : String) :
    Step choose s ⟨.element type, name⟩
      ⟨.element type, ((bindElement name type).run s).1⟩
      ((bindElement name type).run s).2 := by
  let replacement := binderName s.scope name s.scope.freshElement
  have hrun : (bindElement name type).run s =
      (replacement, s.record name replacement (s.scope.addElement replacement type)) := by
    simp only [bindElement, hs, StateT.run_bind, StateT.run_get, pure_bind]
    rfl
  rw [hrun, addElement_eq type (binderName_notMem s.scope name (freshElement_notMem s.scope))]
  exact .bound rfl rfl

/-- A part of a fragment is spliced in steps: the names of the outcome are those that the steps
made, and its shape is as before. -/
def InSteps {α : Type} (names : α → List Mention) (shape : α → α) (x : α)
    (splice : SpliceM α) : Prop :=
  ∀ s : Splice, s.fault = none →
    Steps choose s (names x) (names (splice.run s).1) (splice.run s).2 ∧
      shape (splice.run s).1 = shape x

mutual

theorem spliceExpr_inSteps (e : Expr) (he : e.isKnown = true) :
    InSteps choose mentions shape e (spliceExpr choose e) := by
  intro s hs
  cases e with
  | literal value type => exact ⟨.nil s, rfl⟩
  | «variable» name type => exact ⟨.single (spliceName_step choose s hs name type), rfl⟩
  | unary op operand =>
      obtain ⟨hsteps, hshape⟩ := spliceExpr_inSteps operand he s hs
      exact ⟨hsteps, congrArg (Expr.unary op) hshape⟩
  | binary op left right =>
      obtain ⟨hleft, hright⟩ := Bool.and_eq_true_iff.mp he
      obtain ⟨hfirst, hshape⟩ := spliceExpr_inSteps left hleft s hs
      obtain ⟨hsecond, hshape'⟩ := spliceExpr_inSteps right hright _ (hfirst.fault_eq.trans hs)
      exact ⟨hfirst.append hsecond, congrArg₂ (Expr.binary op) hshape hshape'⟩
  | use component receiver args =>
      cases receiver with
      | none =>
          obtain ⟨hsteps, hshape⟩ := spliceArgs_inSteps args he s hs
          exact ⟨hsteps, congrArg (Expr.use component none) hshape⟩
      | some receiver =>
          obtain ⟨hreceiver, hargs⟩ := Bool.and_eq_true_iff.mp he
          obtain ⟨hfirst, hshape⟩ := spliceExpr_inSteps receiver hreceiver s hs
          obtain ⟨hsecond, hshape'⟩ := spliceArgs_inSteps args hargs _ (hfirst.fault_eq.trans hs)
          exact ⟨hfirst.append hsecond,
            congrArg₂ (fun r a => Expr.use component (some r) a) hshape hshape'⟩
  | foreign f => cases he

theorem spliceArgs_inSteps (args : List Expr) (hargs : argsKnown args = true) :
    InSteps choose mentionsEach shapeEach args (spliceArgs choose args) := by
  intro s hs
  cases args with
  | nil => exact ⟨.nil s, rfl⟩
  | cons e rest =>
      obtain ⟨he, hrest⟩ := Bool.and_eq_true_iff.mp hargs
      obtain ⟨hfirst, hshape⟩ := spliceExpr_inSteps e he s hs
      obtain ⟨hsecond, hshape'⟩ := spliceArgs_inSteps rest hrest _ (hfirst.fault_eq.trans hs)
      exact ⟨hfirst.append hsecond, congrArg₂ List.cons hshape hshape'⟩

end

theorem spliceTest_inSteps (test : Test) (htest : test.isKnown = true) :
    InSteps choose mentionsInTest shapeTest test (spliceTest choose test) := by
  intro s hs
  cases test with
  | concrete e =>
      obtain ⟨hsteps, hshape⟩ := spliceExpr_inSteps choose e htest s hs
      exact ⟨hsteps, congrArg Test.concrete hshape⟩
  | angelic remembered =>
      cases remembered with
      | none => exact ⟨.nil s, rfl⟩
      | some e =>
          obtain ⟨hsteps, hshape⟩ := spliceExpr_inSteps choose e htest s hs
          exact ⟨hsteps, congrArg (fun e => Test.angelic (some e)) hshape⟩
  | blank => cases htest
  | unknown => cases htest

theorem spliceHead_inSteps (head : LoopHead) :
    InSteps choose mentionsInHead shapeHead head (spliceHead head) := by
  intro s hs
  cases head with
  | counting counter declared =>
      exact ⟨.single (bindCounter_step choose s hs counter declared), rfl⟩
  | testing counter => exact ⟨.nil s, rfl⟩

mutual

theorem spliceStmt_inSteps (x : Stmt) (hx : x.isKnown = true) :
    InSteps choose mentionsInStmt shapeStmt x (spliceStmt choose x) := by
  intro s hs
  cases x with
  | assign indent target value =>
      obtain ⟨htarget, hvalue⟩ := Bool.and_eq_true_iff.mp hx
      obtain ⟨hfirst, hshape⟩ := spliceExpr_inSteps choose target htarget s hs
      obtain ⟨hsecond, hshape'⟩ :=
        spliceExpr_inSteps choose value hvalue _ (hfirst.fault_eq.trans hs)
      exact ⟨hfirst.append hsecond, congrArg₂ (Stmt.assign indent) hshape hshape'⟩
  | call indent function =>
      obtain ⟨hsteps, hshape⟩ := spliceExpr_inSteps choose function hx s hs
      exact ⟨hsteps, congrArg (Stmt.call indent) hshape⟩
  | branch indent test body =>
      obtain ⟨htest, hbody⟩ := Bool.and_eq_true_iff.mp hx
      obtain ⟨hfirst, hshape⟩ := spliceTest_inSteps choose test htest s hs
      obtain ⟨hsecond, hshape'⟩ := spliceBlock_inSteps body hbody _ (hfirst.fault_eq.trans hs)
      exact ⟨hfirst.append hsecond, congrArg₂ (Stmt.branch indent) hshape hshape'⟩
  | loop indent head test body =>
      obtain ⟨htest, hbody⟩ := Bool.and_eq_true_iff.mp hx
      obtain ⟨hhead, hshape⟩ := spliceHead_inSteps choose head s hs
      have hs' := hhead.fault_eq.trans hs
      obtain ⟨hfirst, hshape'⟩ := spliceTest_inSteps choose test htest _ hs'
      obtain ⟨hsecond, hshape''⟩ := spliceBlock_inSteps body hbody _ (hfirst.fault_eq.trans hs')
      have hloop : Stmt.loop indent _ _ _ = Stmt.loop indent _ _ _ :=
        congr (congrArg₂ (Stmt.loop indent) hshape hshape') hshape''
      exact ⟨hhead.append (hfirst.append hsecond), hloop⟩
  | foreach indent name type container body =>
      obtain ⟨hcontainer, hbody⟩ := Bool.and_eq_true_iff.mp hx
      have hbind := bindElement_step choose s hs name type
      have hs' := hbind.fault_eq.trans hs
      obtain ⟨hfirst, hshape⟩ := spliceExpr_inSteps choose container hcontainer _ hs'
      obtain ⟨hsecond, hshape'⟩ := spliceBlock_inSteps body hbody _ (hfirst.fault_eq.trans hs')
      exact ⟨.cons hbind (hfirst.append hsecond),
        congrArg₂ (Stmt.foreach indent "" type) hshape hshape'⟩
  | foreign f => cases hx

theorem spliceBlock_inSteps (body : List Stmt) (hbody : blockKnown body = true) :
    InSteps choose mentionsInBlock shapeBlock body (spliceBlock choose body) := by
  intro s hs
  cases body with
  | nil => exact ⟨.nil s, rfl⟩
  | cons x rest =>
      obtain ⟨hx, hrest⟩ := Bool.and_eq_true_iff.mp hbody
      obtain ⟨hfirst, hshape⟩ := spliceStmt_inSteps x hx s hs
      obtain ⟨hsecond, hshape'⟩ := spliceBlock_inSteps rest hrest _ (hfirst.fault_eq.trans hs)
      exact ⟨hfirst.append hsecond, congrArg₂ List.cons hshape hshape'⟩

end

theorem spliceNode_inSteps (n : Node) (hn : nodeKnown n = true) :
    InSteps choose mentionsInNode shapeNode n (spliceNode choose n) := by
  intro s hs
  cases n with
  | expr e =>
      obtain ⟨hsteps, hshape⟩ := spliceExpr_inSteps choose e hn s hs
      exact ⟨hsteps, congrArg Node.expr hshape⟩
  | stmt x =>
      obtain ⟨hsteps, hshape⟩ := spliceStmt_inSteps choose x hn s hs
      exact ⟨hsteps, congrArg Node.stmt hshape⟩
  | text text => cases hn
  | absent => cases hn

/-- The state in which a splice into a program starts. -/
def start (renames : OrderedMap String String) (p : Program) : Splice :=
  ⟨renames, p.scope, [], none⟩

/-- The state in which a splice left itself. -/
def outcome (r : Fitted) : Splice :=
  ⟨r.renames, r.program.scope, r.offers, r.fault⟩

theorem fit_steps (renames : OrderedMap String String) (p : Program) {n : Node}
    (hn : nodeKnown n = true) :
    Steps choose (start renames p) (mentionsInNode n)
      (mentionsInNode (fit choose renames p n).fragment) (outcome (fit choose renames p n)) :=
  (spliceNode_inSteps choose n hn (start renames p) rfl).1

theorem shapeNode_fit (renames : OrderedMap String String) (p : Program)
    {n : Node} (hn : nodeKnown n = true) :
    shapeNode (fit choose renames p n).fragment = shapeNode n :=
  (spliceNode_inSteps choose n hn (start renames p) rfl).2

theorem fault_fit (renames : OrderedMap String String) (p : Program) {n : Node}
    (hn : nodeKnown n = true) : (fit choose renames p n).fault = none :=
  (fit_steps choose renames p hn).fault_eq

end FragmentSynthesis.Proofs.SpliceSteps
