import FragmentSynthesis.Proofs.UniqueDecoding

namespace FragmentSynthesis.Proofs.SameForms

open FragmentSynthesis.Components
open FragmentSynthesis.Expression
open FragmentSynthesis.ExpressionText
open FragmentSynthesis.Operators
open FragmentSynthesis.Proofs.Outlines
open FragmentSynthesis.Proofs.UniqueDecoding
open FragmentSynthesis.Statement
open FragmentSynthesis.TokenTables
open FragmentSynthesis.Values

/-- Expressions of one form with the same details, as far as outlines keep them, and with parts of
one outline each. -/
inductive SameForm : Expr → Expr → Prop
  | literal {value value' : Value} {type type' : String}
      (htext : literalText value type = literalText value' type') :
      SameForm (.literal value type) (.literal value' type')
  | variable (name type type' : String) : SameForm (.variable name type) (.variable name type')
  | unary (op : UnaryOp) {operand operand' : Expr}
      (hoperand : outline operand = outline operand') :
      SameForm (.unary op operand) (.unary op operand')
  | binary (op : BinaryOp) {left left' right right' : Expr} (hleft : outline left = outline left')
      (hright : outline right = outline right') :
      SameForm (.binary op left right) (.binary op left' right')
  | static {c c' : Component} {args args' : List Expr} (htoken : c.token = c'.token)
      (hargs : outlineEach args = outlineEach args') :
      SameForm (.use c none args) (.use c' none args')
  | onReceiver {c c' : Component} {receiver receiver' : Expr} {args args' : List Expr}
      (htoken : c.token = c'.token) (hreceiver : outline receiver = outline receiver')
      (hargs : outlineEach args = outlineEach args') :
      SameForm (.use c (some receiver) args) (.use c' (some receiver') args')
  | foreign (f f' : Foreign) : SameForm (.foreign f) (.foreign f')

theorem sameForm_of_outline {e e' : Expr} (h : outline e = outline e') : SameForm e e' := by
  cases e with
  | literal value type =>
      cases e' with
      | literal value' type' =>
          simp only [outline, Outline.node.injEq, Symbol.constant.injEq, and_true] at h
          exact .literal h
      | use c' receiver' => cases receiver' <;> simp [outline] at h
      | _ => simp [outline] at h
  | «variable» name type =>
      cases e' with
      | «variable» name' type' =>
          simp only [outline, Outline.node.injEq, Symbol.variable.injEq, and_true] at h
          exact h ▸ .variable name type type'
      | use c' receiver' => cases receiver' <;> simp [outline] at h
      | _ => simp [outline] at h
  | unary op operand =>
      cases e' with
      | unary op' operand' =>
          simp only [outline, Outline.node.injEq, Symbol.operator.injEq, Operator.unary.injEq,
            List.cons.injEq, and_true] at h
          obtain ⟨rfl, h⟩ := h
          exact .unary op h
      | use c' receiver' => cases receiver' <;> simp [outline] at h
      | _ => simp [outline] at h
  | binary op left right =>
      cases e' with
      | binary op' left' right' =>
          simp only [outline, Outline.node.injEq, Symbol.operator.injEq, Operator.binary.injEq,
            List.cons.injEq, and_true] at h
          obtain ⟨rfl, hleft, hright⟩ := h
          exact .binary op hleft hright
      | use c' receiver' => cases receiver' <;> simp [outline] at h
      | _ => simp [outline] at h
  | use c receiver args =>
      cases e' with
      | use c' receiver' args' =>
          cases receiver with
          | none =>
              cases receiver' with
              | none =>
                  simp only [outline, Outline.node.injEq, Symbol.use.injEq, and_true] at h
                  obtain ⟨⟨-, htoken, -⟩, hargs⟩ := h
                  exact .static htoken hargs
              | some receiver' => simp [outline] at h
          | some receiver =>
              cases receiver' with
              | none => simp [outline] at h
              | some receiver' =>
                  simp only [outline, Outline.node.injEq, Symbol.use.injEq, List.cons.injEq,
                    and_true] at h
                  obtain ⟨⟨-, htoken, -⟩, hreceiver, hargs⟩ := h
                  exact .onReceiver htoken hreceiver hargs
      | _ => cases receiver <;> simp [outline] at h
  | foreign f =>
      cases e' with
      | foreign f' => exact .foreign f f'
      | use c' receiver' => cases receiver' <;> simp [outline] at h
      | _ => simp [outline] at h

/-- Two tests are concrete and of one outline, or both are open. -/
inductive TestSameForm : Test → Test → Prop
  | concrete {e e' : Expr} (h : outline e = outline e') : TestSameForm (.concrete e) (.concrete e')
  | angelic (remembered remembered' : Option Expr) :
      TestSameForm (.angelic remembered) (.angelic remembered')

theorem outline_ne_openTest (e : Expr) : outline e ≠ .node .openTest [] [] := by
  cases e with
  | use c receiver => cases receiver <;> simp [outline]
  | _ => simp [outline]

/-- Tests that are missing have the outline of foreign expressions, so it is of tests that can be
encoded that outlines tell the form. -/
theorem testSameForm_of_outline {table : TokenTable} {test test' : Test}
    (htest : TestEncodable table test) (htest' : TestEncodable table test')
    (h : outlineTest test = outlineTest test') : TestSameForm test test' := by
  cases test with
  | concrete e =>
      cases test' with
      | concrete e' => exact .concrete h
      | angelic remembered => exact absurd h (outline_ne_openTest e)
      | blank => exact htest'.elim
      | unknown => exact htest'.elim
  | angelic remembered =>
      cases test' with
      | concrete e' => exact absurd h.symm (outline_ne_openTest e')
      | angelic remembered' => exact .angelic remembered remembered'
      | blank => exact htest'.elim
      | unknown => exact htest'.elim
  | blank => exact htest.elim
  | unknown => exact htest.elim

/-- Statements of one form, with parts and blocks of one outline each. -/
inductive StmtSameForm : Stmt → Stmt → Prop
  | assign (indent indent' : Int) {target target' value value' : Expr}
      (htarget : outline target = outline target') (hvalue : outline value = outline value') :
      StmtSameForm (.assign indent target value) (.assign indent' target' value')
  | call (indent indent' : Int) {function function' : Expr}
      (hfunction : outline function = outline function') :
      StmtSameForm (.call indent function) (.call indent' function')
  | branch (indent indent' : Int) {test test' : Test} {body body' : List Stmt}
      (htest : outlineTest test = outlineTest test')
      (hbody : outlineBlock body = outlineBlock body') :
      StmtSameForm (.branch indent test body) (.branch indent' test' body')
  | loop (indent indent' : Int) {head head' : LoopHead} {test test' : Test} {body body' : List Stmt}
      (hhead : loopSymbol head = loopSymbol head') (htest : outlineTest test = outlineTest test')
      (hbody : outlineBlock body = outlineBlock body') :
      StmtSameForm (.loop indent head test body) (.loop indent' head' test' body')
  | foreach (indent indent' : Int) (name type : String) {container container' : Expr}
      {body body' : List Stmt} (hcontainer : outline container = outline container')
      (hbody : outlineBlock body = outlineBlock body') :
      StmtSameForm (.foreach indent name type container body)
        (.foreach indent' name type container' body')
  | foreign (f f' : ForeignStmt) : StmtSameForm (.foreign f) (.foreign f')

theorem stmtSameForm_of_outline {s s' : Stmt} (h : outlineStmt s = outlineStmt s') :
    StmtSameForm s s' := by
  cases s with
  | assign indent target value =>
      cases s' with
      | assign indent' target' value' =>
          simp only [outlineStmt, Outline.node.injEq, List.cons.injEq, and_true, true_and] at h
          exact .assign indent indent' h.1 h.2
      | loop indent' head' => cases head' <;> simp [outlineStmt, loopSymbol] at h
      | _ => simp [outlineStmt] at h
  | call indent function =>
      cases s' with
      | call indent' function' =>
          simp only [outlineStmt, Outline.node.injEq, List.cons.injEq, and_true, true_and] at h
          exact .call indent indent' h
      | loop indent' head' => cases head' <;> simp [outlineStmt, loopSymbol] at h
      | _ => simp [outlineStmt] at h
  | branch indent test body =>
      cases s' with
      | branch indent' test' body' =>
          simp only [outlineStmt, Outline.node.injEq, List.cons.injEq, and_true, true_and] at h
          exact .branch indent indent' h.1 h.2
      | loop indent' head' => cases head' <;> simp [outlineStmt, loopSymbol] at h
      | _ => simp [outlineStmt] at h
  | loop indent head test body =>
      cases s' with
      | loop indent' head' test' body' =>
          simp only [outlineStmt, Outline.node.injEq, List.cons.injEq, and_true] at h
          obtain ⟨hhead, htest, hbody⟩ := h
          exact .loop indent indent' hhead htest hbody
      | _ => cases head <;> simp [outlineStmt, loopSymbol] at h
  | foreach indent name type container body =>
      cases s' with
      | foreach indent' name' type' container' body' =>
          simp only [outlineStmt, Outline.node.injEq, Symbol.foreach.injEq, List.cons.injEq,
            and_true] at h
          obtain ⟨⟨rfl, rfl⟩, hcontainer, hbody⟩ := h
          exact .foreach indent indent' name type hcontainer hbody
      | loop indent' head' => cases head' <;> simp [outlineStmt, loopSymbol] at h
      | _ => simp [outlineStmt] at h
  | foreign f =>
      cases s' with
      | foreign f' => exact .foreign f f'
      | loop indent' head' => cases head' <;> simp [outlineStmt, loopSymbol] at h
      | _ => simp [outlineStmt] at h

end FragmentSynthesis.Proofs.SameForms
