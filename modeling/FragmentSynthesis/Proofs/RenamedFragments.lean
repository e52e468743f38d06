import FragmentSynthesis.Proofs.KnownFragments
import FragmentSynthesis.Renaming
import Mathlib.Logic.Basic

namespace FragmentSynthesis.Proofs.RenamedFragments

open FragmentSynthesis.Expression
open FragmentSynthesis.Faults
open FragmentSynthesis.Proofs.KnownFragments
open FragmentSynthesis.Proofs.Mentions
open FragmentSynthesis.Renaming
open FragmentSynthesis.Statement
open FragmentSynthesis.StatementText
open FragmentSynthesis.StoppingChanges

/-- The head of a loop without a counter that nothing counts. -/
def withoutIdle : LoopHead → LoopHead
  | .counting counter declared => .counting counter declared
  | .testing _ => .testing none

mutual

/-- A statement without the counters of loops that only test. -/
def withoutIdleStmt : Stmt → Stmt
  | .assign indent target value => .assign indent target value
  | .call indent function => .call indent function
  | .branch indent test body => .branch indent test (withoutIdleBlock body)
  | .loop indent head test body => .loop indent (withoutIdle head) test (withoutIdleBlock body)
  | .foreach indent name type container body =>
      .foreach indent name type container (withoutIdleBlock body)
  | .foreign f => .foreign f

def withoutIdleBlock : List Stmt → List Stmt
  | [] => []
  | s :: rest => withoutIdleStmt s :: withoutIdleBlock rest

end

mutual

theorem encode_withoutIdle (s : Stmt) : encodeStmt (withoutIdleStmt s) = encodeStmt s := by
  cases s with
  | assign indent target value => rfl
  | call indent function => rfl
  | branch indent test body =>
      simp only [withoutIdleStmt, encodeStmt, encodeBlock_withoutIdle body]
  | loop indent head test body =>
      have hhead : encodeHead (withoutIdle head) = encodeHead head := by cases head <;> rfl
      simp only [withoutIdleStmt, encodeStmt, encodeBlock_withoutIdle body, hhead]
  | foreach indent name type container body =>
      simp only [withoutIdleStmt, encodeStmt, encodeBlock_withoutIdle body]
  | foreign f => rfl

theorem encodeBlock_withoutIdle (body : List Stmt) :
    encodeBlock (withoutIdleBlock body) = encodeBlock body := by
  cases body with
  | nil => rfl
  | cons s rest =>
      simp only [withoutIdleBlock, encodeBlock, encode_withoutIdle s, encodeBlock_withoutIdle rest]

end

mutual

theorem mentions_withoutIdle (s : Stmt) :
    mentionsInStmt (withoutIdleStmt s) = mentionsInStmt s := by
  cases s with
  | assign indent target value => rfl
  | call indent function => rfl
  | branch indent test body =>
      simp only [withoutIdleStmt, mentionsInStmt, mentionsInBlock_withoutIdle body]
  | loop indent head test body =>
      have hhead : mentionsInHead (withoutIdle head) = mentionsInHead head := by cases head <;> rfl
      simp only [withoutIdleStmt, mentionsInStmt, mentionsInBlock_withoutIdle body, hhead]
  | foreach indent name type container body =>
      simp only [withoutIdleStmt, mentionsInStmt, mentionsInBlock_withoutIdle body]
  | foreign f => rfl

theorem mentionsInBlock_withoutIdle (body : List Stmt) :
    mentionsInBlock (withoutIdleBlock body) = mentionsInBlock body := by
  cases body with
  | nil => rfl
  | cons s rest =>
      simp only [withoutIdleBlock, mentionsInBlock, mentions_withoutIdle s,
        mentionsInBlock_withoutIdle rest]

end

mutual

theorem shape_withoutIdle (s : Stmt) :
    shapeStmt (withoutIdleStmt s) = withoutIdleStmt (shapeStmt s) := by
  cases s with
  | assign indent target value => rfl
  | call indent function => rfl
  | branch indent test body =>
      simp only [withoutIdleStmt, shapeStmt, shapeBlock_withoutIdle body]
  | loop indent head test body =>
      have hhead : shapeHead (withoutIdle head) = withoutIdle (shapeHead head) := by
        cases head <;> rfl
      simp only [withoutIdleStmt, shapeStmt, shapeBlock_withoutIdle body, hhead]
  | foreach indent name type container body =>
      simp only [withoutIdleStmt, shapeStmt, shapeBlock_withoutIdle body]
  | foreign f => rfl

theorem shapeBlock_withoutIdle (body : List Stmt) :
    shapeBlock (withoutIdleBlock body) = withoutIdleBlock (shapeBlock body) := by
  cases body with
  | nil => rfl
  | cons s rest =>
      simp only [withoutIdleBlock, shapeBlock, shape_withoutIdle s, shapeBlock_withoutIdle rest]

end

/-- A node without counters that nothing counts. -/
def withoutIdleNode : Node → Node
  | .expr e => .expr e
  | .stmt s => .stmt (withoutIdleStmt s)
  | .text s => .text s
  | .absent => .absent

/-- Mentions and shape, but for idle counters, determine the encoding. -/
theorem encodeNode_eq_of_shape {a b : Node}
    (hshape : withoutIdleNode (shapeNode a) = withoutIdleNode (shapeNode b))
    (h : mentionsInNode a = mentionsInNode b) : encodeNode a = encodeNode b := by
  cases a <;> cases b <;>
    simp only [shapeNode, withoutIdleNode, reduceCtorEq, Node.expr.injEq, Node.stmt.injEq,
      Node.text.injEq] at hshape
  case expr.expr => rw [eq_of_shape _ _ hshape h]
  case stmt.stmt x y =>
    have heq : withoutIdleStmt x = withoutIdleStmt y := eq_of_shapeStmt _ _
      (by rw [shape_withoutIdle, shape_withoutIdle, hshape])
      (by rw [mentions_withoutIdle, mentions_withoutIdle]; exact h)
    exact (encode_withoutIdle x).symm.trans ((congrArg encodeStmt heq).trans (encode_withoutIdle y))
  case text.text => rw [hshape]
  case absent.absent => rfl

/-- A change replaces each name by its image, whatever it is a part of, and keeps the shape. -/
def InRenaming {α : Type} (f : String → String) (names : α → List Mention) (shape : α → α) (x : α)
    (change : Stopping α) : Prop :=
  ∀ stopped : Option Fault, stopped = none →
    (change.run stopped).2 = none ∧
      names (change.run stopped).1 = (names x).map (fun m => m.withName (f m.name)) ∧
      shape (change.run stopped).1 = shape x

theorem append_eq_map {f : Mention → Mention} {ms ms' ns ns' : List Mention} (h : ms' = ms.map f)
    (h' : ns' = ns.map f) : ms' ++ ns' = (ms ++ ns).map f := by
  rw [h, h', List.map_append]

variable (f : String → String)

mutual

theorem renameExpr_inRenaming (e : Expr) (he : e.isKnown = true) :
    InRenaming f mentions shape e (renameExpr f e) := by
  intro stopped hstopped
  cases e with
  | literal value type => exact ⟨hstopped, rfl, rfl⟩
  | «variable» name type =>
      subst hstopped
      exact ⟨rfl, rfl, rfl⟩
  | unary op operand =>
      obtain ⟨hstopped, hnames, hshape⟩ := renameExpr_inRenaming operand he stopped hstopped
      exact ⟨hstopped, hnames, congrArg (Expr.unary op) hshape⟩
  | binary op left right =>
      obtain ⟨hleft, hright⟩ := Bool.and_eq_true_iff.mp he
      obtain ⟨hfirst, hnames, hshape⟩ := renameExpr_inRenaming left hleft stopped hstopped
      obtain ⟨hsecond, hnames', hshape'⟩ := renameExpr_inRenaming right hright _ hfirst
      exact ⟨hsecond, append_eq_map hnames hnames', congrArg₂ (Expr.binary op) hshape hshape'⟩
  | use component receiver args =>
      cases receiver with
      | none =>
          obtain ⟨hstopped, hnames, hshape⟩ := renameArgs_inRenaming args he stopped hstopped
          exact ⟨hstopped, hnames, congrArg (Expr.use component none) hshape⟩
      | some receiver =>
          obtain ⟨hreceiver, hargs⟩ := Bool.and_eq_true_iff.mp he
          obtain ⟨hfirst, hnames, hshape⟩ :=
            renameExpr_inRenaming receiver hreceiver stopped hstopped
          obtain ⟨hsecond, hnames', hshape'⟩ := renameArgs_inRenaming args hargs _ hfirst
          exact ⟨hsecond, append_eq_map hnames hnames',
            congrArg₂ (fun r a => Expr.use component (some r) a) hshape hshape'⟩
  | foreign g => cases he

theorem renameArgs_inRenaming (args : List Expr) (hargs : argsKnown args = true) :
    InRenaming f mentionsEach shapeEach args (renameArgs f args) := by
  intro stopped hstopped
  cases args with
  | nil => exact ⟨hstopped, rfl, rfl⟩
  | cons e rest =>
      obtain ⟨he, hrest⟩ := Bool.and_eq_true_iff.mp hargs
      obtain ⟨hfirst, hnames, hshape⟩ := renameExpr_inRenaming e he stopped hstopped
      obtain ⟨hsecond, hnames', hshape'⟩ := renameArgs_inRenaming rest hrest _ hfirst
      exact ⟨hsecond, append_eq_map hnames hnames', congrArg₂ List.cons hshape hshape'⟩

end

theorem renameTest_inRenaming (test : Test) (htest : test.isKnown = true) :
    InRenaming f mentionsInTest shapeTest test (renameTest f test) := by
  intro stopped hstopped
  cases test with
  | concrete e =>
      obtain ⟨hstopped, hnames, hshape⟩ := renameExpr_inRenaming f e htest stopped hstopped
      exact ⟨hstopped, hnames, congrArg Test.concrete hshape⟩
  | angelic remembered =>
      cases remembered with
      | none => exact ⟨hstopped, rfl, rfl⟩
      | some e =>
          obtain ⟨hstopped, hnames, hshape⟩ := renameExpr_inRenaming f e htest stopped hstopped
          exact ⟨hstopped, hnames, congrArg (fun e => Test.angelic (some e)) hshape⟩
  | blank => cases htest
  | unknown => cases htest

theorem renameHead_inRenaming (head : LoopHead) :
    InRenaming f mentionsInHead (fun head => withoutIdle (shapeHead head)) head
      (renameHead f head) := by
  rintro stopped rfl
  cases head <;> exact ⟨rfl, rfl, rfl⟩

mutual

theorem renameStmt_inRenaming (x : Stmt) (hx : x.isKnown = true) :
    InRenaming f mentionsInStmt (fun x => withoutIdleStmt (shapeStmt x)) x (renameStmt f x) := by
  intro stopped hstopped
  cases x with
  | assign indent target value =>
      obtain ⟨htarget, hvalue⟩ := Bool.and_eq_true_iff.mp hx
      obtain ⟨hfirst, hnames, hshape⟩ := renameExpr_inRenaming f target htarget stopped hstopped
      obtain ⟨hsecond, hnames', hshape'⟩ := renameExpr_inRenaming f value hvalue _ hfirst
      exact ⟨hsecond, append_eq_map hnames hnames', congrArg₂ (Stmt.assign indent) hshape hshape'⟩
  | call indent function =>
      obtain ⟨hstopped, hnames, hshape⟩ := renameExpr_inRenaming f function hx stopped hstopped
      exact ⟨hstopped, hnames, congrArg (Stmt.call indent) hshape⟩
  | branch indent test body =>
      obtain ⟨htest, hbody⟩ := Bool.and_eq_true_iff.mp hx
      obtain ⟨hfirst, hnames, hshape⟩ := renameTest_inRenaming f test htest stopped hstopped
      obtain ⟨hsecond, hnames', hshape'⟩ := renameBlock_inRenaming body hbody _ hfirst
      exact ⟨hsecond, append_eq_map hnames hnames', congrArg₂ (Stmt.branch indent) hshape hshape'⟩
  | loop indent head test body =>
      obtain ⟨htest, hbody⟩ := Bool.and_eq_true_iff.mp hx
      obtain ⟨hhead, hnames, hshape⟩ := renameHead_inRenaming f head stopped hstopped
      obtain ⟨hfirst, hnames', hshape'⟩ := renameTest_inRenaming f test htest _ hhead
      obtain ⟨hsecond, hnames'', hshape''⟩ := renameBlock_inRenaming body hbody _ hfirst
      have hloop : Stmt.loop indent _ _ _ = Stmt.loop indent _ _ _ :=
        congr (congrArg₂ (Stmt.loop indent) hshape hshape') hshape''
      exact ⟨hsecond, append_eq_map hnames (append_eq_map hnames' hnames''), hloop⟩
  | foreach indent name type container body =>
      obtain ⟨hcontainer, hbody⟩ := Bool.and_eq_true_iff.mp hx
      subst hstopped
      obtain ⟨hfirst, hnames, hshape⟩ := renameBlock_inRenaming body hbody none rfl
      obtain ⟨hsecond, hnames', hshape'⟩ := renameExpr_inRenaming f container hcontainer _ hfirst
      exact ⟨hsecond, congrArg (List.cons _) (append_eq_map hnames' hnames),
        congrArg₂ (Stmt.foreach indent "" type) hshape' hshape⟩
  | foreign g => cases hx

theorem renameBlock_inRenaming (body : List Stmt) (hbody : blockKnown body = true) :
    InRenaming f mentionsInBlock (fun body => withoutIdleBlock (shapeBlock body)) body
      (renameBlock f body) := by
  intro stopped hstopped
  cases body with
  | nil => exact ⟨hstopped, rfl, rfl⟩
  | cons x rest =>
      obtain ⟨hx, hrest⟩ := Bool.and_eq_true_iff.mp hbody
      obtain ⟨hfirst, hnames, hshape⟩ := renameStmt_inRenaming x hx stopped hstopped
      obtain ⟨hsecond, hnames', hshape'⟩ := renameBlock_inRenaming rest hrest _ hfirst
      exact ⟨hsecond, append_eq_map hnames hnames', congrArg₂ List.cons hshape hshape'⟩

end

theorem renameNode_inRenaming (n : Node) (hn : nodeKnown n = true) :
    InRenaming f mentionsInNode (fun n => withoutIdleNode (shapeNode n)) n (renameNode f n) := by
  intro stopped hstopped
  cases n with
  | expr e =>
      obtain ⟨hstopped, hnames, hshape⟩ := renameExpr_inRenaming f e hn stopped hstopped
      exact ⟨hstopped, hnames, congrArg Node.expr hshape⟩
  | stmt x =>
      obtain ⟨hstopped, hnames, hshape⟩ := renameStmt_inRenaming f x hn stopped hstopped
      exact ⟨hstopped, hnames, congrArg Node.stmt hshape⟩
  | text text => cases hn
  | absent => cases hn

end FragmentSynthesis.Proofs.RenamedFragments
