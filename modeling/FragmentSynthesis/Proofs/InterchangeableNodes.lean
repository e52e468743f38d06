import FragmentSynthesis.Matching

namespace FragmentSynthesis.Proofs.InterchangeableNodes

open FragmentSynthesis.Components
open FragmentSynthesis.Expression
open FragmentSynthesis.ExpressionText
open FragmentSynthesis.Matching
open FragmentSynthesis.Operators
open FragmentSynthesis.Programs
open FragmentSynthesis.Statement
open FragmentSynthesis.Values
open FragmentSynthesis.Weight

mutual

/-- Expressions of one form, with the same texts of constants, names, operators and identities of
components. -/
inductive Interchangeable : Expr → Expr → Prop
  | literal {value value' : Value} {type type' : String}
      (h : literalText value type = literalText value' type') :
      Interchangeable (.literal value type) (.literal value' type')
  | variable (name type type' : String) :
      Interchangeable (.variable name type) (.variable name type')
  | unary (op : UnaryOp) {operand operand' : Expr}
      (h : Interchangeable operand operand') :
      Interchangeable (.unary op operand) (.unary op operand')
  | binary (op : BinaryOp) {left left' right right' : Expr}
      (hleft : Interchangeable left left') (hright : Interchangeable right right') :
      Interchangeable (.binary op left right) (.binary op left' right')
  | static {c c' : Component} {args args' : List Expr} (h : c.identity = c'.identity)
      (hargs : EachInterchangeable args args') :
      Interchangeable (.use c none args) (.use c' none args')
  | onReceiver {c c' : Component} {receiver receiver' : Expr} {args args' : List Expr}
      (h : c.identity = c'.identity) (hreceiver : Interchangeable receiver receiver')
      (hargs : EachInterchangeable args args') :
      Interchangeable (.use c (some receiver) args) (.use c' (some receiver') args')
  | foreign (f : Foreign) : Interchangeable (.foreign f) (.foreign f)

inductive EachInterchangeable : List Expr → List Expr → Prop
  | nil : EachInterchangeable [] []
  | cons {e e' : Expr} {rest rest' : List Expr} (hfirst : Interchangeable e e')
      (hrest : EachInterchangeable rest rest') : EachInterchangeable (e :: rest) (e' :: rest')

end

/-- What an open test remembers is of no account. -/
inductive TestInterchangeable : Test → Test → Prop
  | concrete {e e' : Expr} (h : Interchangeable e e') :
      TestInterchangeable (.concrete e) (.concrete e')
  | angelic (remembered remembered' : Option Expr) :
      TestInterchangeable (.angelic remembered) (.angelic remembered')
  | blank : TestInterchangeable .blank .blank
  | unknown : TestInterchangeable .unknown .unknown

mutual

/-- Statements of one form with interchangeable parts, whatever their depths, their heads and the
names and types of their elements. -/
inductive StmtInterchangeable : Stmt → Stmt → Prop
  | assign (indent indent' : Int) {target target' value value' : Expr}
      (htarget : Interchangeable target target') (hvalue : Interchangeable value value') :
      StmtInterchangeable (.assign indent target value) (.assign indent' target' value')
  | call (indent indent' : Int) {function function' : Expr}
      (h : Interchangeable function function') :
      StmtInterchangeable (.call indent function) (.call indent' function')
  | branch (indent indent' : Int) {test test' : Test} {body body' : List Stmt}
      (htest : TestInterchangeable test test') (hbody : BlockInterchangeable body body') :
      StmtInterchangeable (.branch indent test body) (.branch indent' test' body')
  | loop (indent indent' : Int) (head head' : LoopHead) {test test' : Test}
      {body body' : List Stmt} (htest : TestInterchangeable test test')
      (hbody : BlockInterchangeable body body') :
      StmtInterchangeable (.loop indent head test body) (.loop indent' head' test' body')
  | foreach (indent indent' : Int) (name name' type type' : String) {container container' : Expr}
      {body body' : List Stmt} (hcontainer : Interchangeable container container')
      (hbody : BlockInterchangeable body body') :
      StmtInterchangeable (.foreach indent name type container body)
        (.foreach indent' name' type' container' body')
  | foreign (f : ForeignStmt) : StmtInterchangeable (.foreign f) (.foreign f)

inductive BlockInterchangeable : List Stmt → List Stmt → Prop
  | nil : BlockInterchangeable [] []
  | cons {s s' : Stmt} {rest rest' : List Stmt} (hfirst : StmtInterchangeable s s')
      (hrest : BlockInterchangeable rest rest') : BlockInterchangeable (s :: rest) (s' :: rest')

end

mutual

theorem interchangeable_refl (e : Expr) : Interchangeable e e := by
  cases e with
  | literal value type => exact .literal rfl
  | «variable» name type => exact .variable name type type
  | unary op operand => exact .unary op (interchangeable_refl operand)
  | binary op left right =>
      exact .binary op (interchangeable_refl left) (interchangeable_refl right)
  | use component receiver args =>
      cases receiver with
      | none => exact .static rfl (eachInterchangeable_refl args)
      | some receiver =>
          exact .onReceiver rfl (interchangeable_refl receiver) (eachInterchangeable_refl args)
  | foreign f => exact .foreign f

theorem eachInterchangeable_refl (args : List Expr) : EachInterchangeable args args := by
  cases args with
  | nil => exact .nil
  | cons e rest => exact .cons (interchangeable_refl e) (eachInterchangeable_refl rest)

end

theorem testInterchangeable_refl (test : Test) : TestInterchangeable test test := by
  cases test with
  | concrete e => exact .concrete (interchangeable_refl e)
  | angelic remembered => exact .angelic remembered remembered
  | blank => exact .blank
  | unknown => exact .unknown

mutual

theorem stmtInterchangeable_refl (s : Stmt) : StmtInterchangeable s s := by
  cases s with
  | assign indent target value =>
      exact .assign indent indent (interchangeable_refl target) (interchangeable_refl value)
  | call indent function => exact .call indent indent (interchangeable_refl function)
  | branch indent test body =>
      exact .branch indent indent (testInterchangeable_refl test) (blockInterchangeable_refl body)
  | loop indent head test body =>
      exact .loop indent indent head head (testInterchangeable_refl test)
        (blockInterchangeable_refl body)
  | foreach indent name type container body =>
      exact .foreach indent indent name name type type (interchangeable_refl container)
        (blockInterchangeable_refl body)
  | foreign f => exact .foreign f

theorem blockInterchangeable_refl (body : List Stmt) : BlockInterchangeable body body := by
  cases body with
  | nil => exact .nil
  | cons s rest => exact .cons (stmtInterchangeable_refl s) (blockInterchangeable_refl rest)

end

theorem blockInterchangeable_within {s s' : Stmt} (h : StmtInterchangeable s s')
    (front back : List Stmt) : BlockInterchangeable (front ++ s :: back) (front ++ s' :: back) := by
  induction front with
  | nil => exact .cons h (blockInterchangeable_refl back)
  | cons first rest ih => exact .cons (stmtInterchangeable_refl first) ih

mutual

theorem weight_congr (e e' : Expr) (h : Interchangeable e e') : weight e = weight e' := by
  cases h with
  | literal h => rfl
  | «variable» name type type' => rfl
  | unary op h => rw [weight, weight, weight_congr _ _ h]
  | binary op hleft hright =>
      rw [weight, weight, weight_congr _ _ hleft, weight_congr _ _ hright]
  | static h hargs => rw [weight, weight, weightEach_congr _ _ hargs]
  | onReceiver h hreceiver hargs =>
      rw [weight, weight, weight_congr _ _ hreceiver, weightEach_congr _ _ hargs]
  | foreign f => rfl

theorem weightEach_congr (args args' : List Expr) (h : EachInterchangeable args args') :
    weightEach args = weightEach args' := by
  cases h with
  | nil => rfl
  | cons hfirst hrest =>
      rw [weightEach, weightEach, weight_congr _ _ hfirst, weightEach_congr _ _ hrest]

end

theorem weightOfTest_congr {test test' : Test} (h : TestInterchangeable test test') :
    weightOfTest test = weightOfTest test' := by
  cases h with
  | concrete h => exact weight_congr _ _ h
  | angelic remembered remembered' => rfl
  | blank => rfl
  | unknown => rfl

mutual

theorem weightOfStmt_congr (s s' : Stmt) (h : StmtInterchangeable s s') :
    weightOfStmt s = weightOfStmt s' := by
  cases h with
  | assign indent indent' htarget hvalue =>
      rw [weightOfStmt, weightOfStmt, weight_congr _ _ hvalue]
  | call indent indent' h => exact weight_congr _ _ h
  | branch indent indent' htest hbody =>
      rw [weightOfStmt, weightOfStmt, weightOfTest_congr htest, weightOfBlock_congr _ _ hbody]
  | loop indent indent' head head' htest hbody =>
      rw [weightOfStmt, weightOfStmt, weightOfTest_congr htest, weightOfBlock_congr _ _ hbody]
  | foreach indent indent' name name' type type' hcontainer hbody =>
      rw [weightOfStmt, weightOfStmt, weight_congr _ _ hcontainer, weightOfBlock_congr _ _ hbody]
  | foreign f => rfl

theorem weightOfBlock_congr (body body' : List Stmt) (h : BlockInterchangeable body body') :
    weightOfBlock body = weightOfBlock body' := by
  cases h with
  | nil => rfl
  | cons hfirst hrest =>
      rw [weightOfBlock, weightOfBlock, weightOfStmt_congr _ _ hfirst,
        weightOfBlock_congr _ _ hrest]

end

theorem countLiterals_congr {v v' w w' : Value} {type type' other other' : String}
    (h : literalText v type = literalText v' type')
    (h' : literalText w other = literalText w' other') :
    countLiterals v type w other = countLiterals v' type' w' other' := by
  rw [countLiterals, countLiterals, h, h']

mutual

/-- Fragments and nodes that are interchangeable count the same, or with the same fault. -/
theorem count_congr (f f' e e' : Expr) (hf : Interchangeable f f') (he : Interchangeable e e') :
    count f e = count f' e' := by
  cases hf with
  | literal h =>
      cases he with
      | literal h' => exact countLiterals_congr h h'
      | _ => rfl
  | «variable» name type type' => cases he <;> rfl
  | unary op h =>
      cases he with
      | unary op' h' => rw [count, count, count_congr _ _ _ _ h h']
      | _ => rfl
  | binary op hleft hright =>
      cases he with
      | binary op' hleft' hright' =>
          rw [count, count, count_congr _ _ _ _ hleft hleft', count_congr _ _ _ _ hright hright']
      | _ => rfl
  | static h hargs =>
      cases he with
      | static h' hargs' => rw [count, count, h, h', countEach_congr _ _ _ _ hargs hargs']
      | onReceiver h' hreceiver' hargs' =>
          rw [count, count, h, h', countEach_congr _ _ _ _ hargs hargs']
      | _ => rfl
  | onReceiver h hreceiver hargs =>
      cases he with
      | static h' hargs' => rw [count, count, h, h', countEach_congr _ _ _ _ hargs hargs']
      | onReceiver h' hreceiver' hargs' =>
          rw [count, count, h, h', count_congr _ _ _ _ hreceiver hreceiver',
            countEach_congr _ _ _ _ hargs hargs']
      | _ => rfl
  | foreign g => cases he <;> rfl

theorem countEach_congr (fs fs' args args' : List Expr) (hfs : EachInterchangeable fs fs')
    (hargs : EachInterchangeable args args') : countEach fs args = countEach fs' args' := by
  cases hfs with
  | nil => rfl
  | cons hfirst hrest =>
      cases hargs with
      | nil => rfl
      | cons hfirst' hrest' =>
          rw [countEach, countEach, count_congr _ _ _ _ hfirst hfirst',
            countEach_congr _ _ _ _ hrest hrest']

end

theorem countTests_congr {f f' test test' : Test} (hf : TestInterchangeable f f')
    (htest : TestInterchangeable test test') : countTests f test = countTests f' test' := by
  cases hf with
  | concrete h =>
      cases htest with
      | concrete h' => exact count_congr _ _ _ _ h h'
      | _ => rfl
  | _ => cases htest <;> rfl

mutual

theorem countStmt_congr (f f' s s' : Stmt) (hf : StmtInterchangeable f f')
    (hs : StmtInterchangeable s s') : countStmt f s = countStmt f' s' := by
  cases hf with
  | assign _ _ htarget hvalue =>
      cases hs with
      | assign _ _ htarget' hvalue' =>
          rw [countStmt, countStmt, count_congr _ _ _ _ htarget htarget',
            count_congr _ _ _ _ hvalue hvalue']
      | _ => rfl
  | call _ _ h =>
      cases hs with
      | call _ _ h' => exact count_congr _ _ _ _ h h'
      | _ => rfl
  | branch _ _ htest hbody =>
      cases hs with
      | branch _ _ htest' hbody' =>
          rw [countStmt, countStmt, countTests_congr htest htest',
            countBlock_congr _ _ _ _ hbody hbody']
      | _ => rfl
  | loop _ _ _ _ htest hbody =>
      cases hs with
      | loop _ _ _ _ htest' hbody' =>
          rw [countStmt, countStmt, countTests_congr htest htest',
            countBlock_congr _ _ _ _ hbody hbody']
      | _ => rfl
  | foreach _ _ _ _ _ _ hcontainer hbody =>
      cases hs with
      | foreach _ _ _ _ _ _ hcontainer' hbody' =>
          rw [countStmt, countStmt, count_congr _ _ _ _ hcontainer hcontainer',
            countBlock_congr _ _ _ _ hbody hbody']
      | _ => rfl
  | foreign g => cases hs <;> rfl

theorem countBlock_congr (fs fs' body body' : List Stmt) (hfs : BlockInterchangeable fs fs')
    (hbody : BlockInterchangeable body body') : countBlock fs body = countBlock fs' body' := by
  cases hfs with
  | nil => rfl
  | cons hfirst hrest =>
      cases hbody with
      | nil => rfl
      | cons hfirst' hrest' =>
          rw [countBlock, countBlock, countStmt_congr _ _ _ _ hfirst hfirst',
            countBlock_congr _ _ _ _ hrest hrest']

end

mutual

theorem search_congr (f e e' : Expr) (h : Interchangeable e e') : search f e = search f e' := by
  have hhere := count_congr f f e e' (interchangeable_refl f) h
  cases h with
  | literal h => exact hhere
  | «variable» name type type' => exact hhere
  | unary op h => rw [search, search, hhere, search_congr f _ _ h]
  | binary op hleft hright =>
      rw [search, search, hhere, search_congr f _ _ hleft, search_congr f _ _ hright]
  | static h hargs => rw [search, search, hhere, searchEach_congr f _ _ hargs]
  | onReceiver h hreceiver hargs =>
      rw [search, search, hhere, search_congr f _ _ hreceiver, searchEach_congr f _ _ hargs]
  | foreign g => rfl

theorem searchEach_congr (f : Expr) (args args' : List Expr) (h : EachInterchangeable args args') :
    searchEach f args = searchEach f args' := by
  cases h with
  | nil => rfl
  | cons hfirst hrest =>
      rw [searchEach, searchEach, search_congr f _ _ hfirst, searchEach_congr f _ _ hrest]

end

theorem searchTest_congr (f : Expr) {test test' : Test} (h : TestInterchangeable test test') :
    searchTest f test = searchTest f test' := by
  cases h with
  | concrete h => exact search_congr f _ _ h
  | angelic remembered remembered' => rfl
  | blank => rfl
  | unknown => rfl

mutual

theorem searchInStmt_congr (f : Expr) (s s' : Stmt) (h : StmtInterchangeable s s') :
    searchInStmt f s = searchInStmt f s' := by
  cases h with
  | assign _ _ htarget hvalue =>
      rw [searchInStmt, searchInStmt, search_congr f _ _ htarget, search_congr f _ _ hvalue]
  | call _ _ h => exact search_congr f _ _ h
  | branch _ _ htest hbody =>
      rw [searchInStmt, searchInStmt, searchTest_congr f htest, searchInBlock_congr f _ _ hbody]
  | loop _ _ _ _ htest hbody =>
      rw [searchInStmt, searchInStmt, searchTest_congr f htest, searchInBlock_congr f _ _ hbody]
  | foreach _ _ _ _ _ _ hcontainer hbody =>
      rw [searchInStmt, searchInStmt, search_congr f _ _ hcontainer,
        searchInBlock_congr f _ _ hbody]
  | foreign g => rfl

theorem searchInBlock_congr (f : Expr) (body body' : List Stmt)
    (h : BlockInterchangeable body body') : searchInBlock f body = searchInBlock f body' := by
  cases h with
  | nil => rfl
  | cons hfirst hrest =>
      rw [searchInBlock, searchInBlock, searchInStmt_congr f _ _ hfirst,
        searchInBlock_congr f _ _ hrest]

end

mutual

theorem searchStmt_congr (f s s' : Stmt) (h : StmtInterchangeable s s') :
    searchStmt f s = searchStmt f s' := by
  have hhere := countStmt_congr f f s s' (stmtInterchangeable_refl f) h
  cases h with
  | assign _ _ htarget hvalue => exact hhere
  | call _ _ h => exact hhere
  | branch _ _ htest hbody => rw [searchStmt, searchStmt, hhere, searchBlock_congr f _ _ hbody]
  | loop _ _ _ _ htest hbody => rw [searchStmt, searchStmt, hhere, searchBlock_congr f _ _ hbody]
  | foreach _ _ _ _ _ _ hcontainer hbody =>
      rw [searchStmt, searchStmt, hhere, searchBlock_congr f _ _ hbody]
  | foreign g => rfl

theorem searchBlock_congr (f : Stmt) (body body' : List Stmt)
    (h : BlockInterchangeable body body') : searchBlock f body = searchBlock f body' := by
  cases h with
  | nil => rfl
  | cons hfirst hrest =>
      rw [searchBlock, searchBlock, searchStmt_congr f _ _ hfirst, searchBlock_congr f _ _ hrest]

end

/-- A program with a node put in: a statement between others, an expression as the result. -/
def placed (p : Program) (front back : List Stmt) : Node → Program
  | .stmt s => { p with statements := front ++ s :: back }
  | .expr e => p.setResult (some e)
  | .text _ => p
  | .absent => p

theorem bestMatch_placed_expr (p : Program) (front back : List Stmt) {e e' : Expr}
    (h : Interchangeable e e') (f : Node) :
    bestMatch f (placed p front back (.expr e)) = bestMatch f (placed p front back (.expr e')) := by
  cases f with
  | expr f => simp only [bestMatch, placed, Program.setResult, search_congr f e e' h]
  | stmt f => rfl
  | text _ => rfl
  | absent => rfl

theorem bestMatch_placed_stmt (p : Program) (front back : List Stmt) {s s' : Stmt}
    (h : StmtInterchangeable s s') (f : Node) :
    bestMatch f (placed p front back (.stmt s)) = bestMatch f (placed p front back (.stmt s')) := by
  have hbody := blockInterchangeable_within h front back
  cases f with
  | expr f => simp only [bestMatch, placed, searchInBlock_congr f _ _ hbody]
  | stmt f => exact searchBlock_congr f _ _ hbody
  | text _ => rfl
  | absent => rfl

end FragmentSynthesis.Proofs.InterchangeableNodes
