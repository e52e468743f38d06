import FragmentSynthesis.Programs

namespace FragmentSynthesis.Traversal

open FragmentSynthesis.Expression
open FragmentSynthesis.Faults
open FragmentSynthesis.Programs
open FragmentSynthesis.Statement

/-- The fault of an analysis that meets something it does not know. -/
def unknown {α : Type} (kind : String) (analysis : Analysis) : Except Fault α :=
  .error (.unknownNode kind analysis)

mutual

/-- An expression and all below it. -/
def preorder : Expr → Except Fault (List Expr)
  | .literal value type => .ok [.literal value type]
  | .variable name type => .ok [.variable name type]
  | .unary op operand => do
      let below ← preorder operand
      return .unary op operand :: below
  | .binary op left right => do
      let first ← preorder left
      let second ← preorder right
      return .binary op left right :: (first ++ second)
  | .use component none args => do
      let below ← preorderEach args
      return .use component none args :: below
  | .use component (some receiver) args => do
      let first ← preorder receiver
      let below ← preorderEach args
      return .use component (some receiver) args :: (first ++ below)
  | .foreign f => unknown f.kindName .subExpressions

def preorderEach : List Expr → Except Fault (List Expr)
  | [] => .ok []
  | e :: rest => do
      let first ← preorder e
      let others ← preorderEach rest
      return first ++ others

end

/-- The strict parts of an expression. -/
def subExpressions (e : Expr) : Except Fault (List Expr) :=
  (preorder e).map List.tail

mutual

/-- A statement and all that are nested in it. -/
def preorderStmt : Stmt → Except Fault (List Stmt)
  | .assign indent target value => .ok [.assign indent target value]
  | .call indent function => .ok [.call indent function]
  | .branch indent test body => do
      let below ← preorderBlock body
      return .branch indent test body :: below
  | .loop indent head test body => do
      let below ← preorderBlock body
      return .loop indent head test body :: below
  | .foreach indent name type container body => do
      let below ← preorderBlock body
      return .foreach indent name type container body :: below
  | .foreign f => unknown f.kindName .body

/-- The statements of a block and of the blocks within it, in the order in which they stand there.
-/
def preorderBlock : List Stmt → Except Fault (List Stmt)
  | [] => .ok []
  | s :: rest => do
      let first ← preorderStmt s
      let others ← preorderBlock rest
      return first ++ others

end

/-- The statements nested in a statement. -/
def subStatements (s : Stmt) : Except Fault (List Stmt) :=
  (preorderStmt s).map List.tail

/-- What is harvested: statements, and expressions that have a type of their own accord. -/
structure Harvest where
  statements : List Stmt
  expressions : List Expr

/-- The fragments of two harvests, kind by kind. -/
def Harvest.append (a b : Harvest) : Harvest :=
  ⟨a.statements ++ b.statements, a.expressions ++ b.expressions⟩

mutual

/-- A statement, those of its block, and the values and calls in them with all their parts. -/
def harvestStmt : Stmt → Except Fault Harvest
  | .assign indent target value => do
      let below ← preorder value
      return ⟨[.assign indent target value], below⟩
  | .call indent function => do
      let below ← preorder function
      return ⟨[.call indent function], below⟩
  | .branch indent test body => do
      let below ← harvestBlock body
      return Harvest.append ⟨[.branch indent test body], []⟩ below
  | .loop indent head test body => do
      let below ← harvestBlock body
      return Harvest.append ⟨[.loop indent head test body], []⟩ below
  | .foreach indent name type container body => do
      let below ← harvestBlock body
      return Harvest.append ⟨[.foreach indent name type container body], []⟩ below
  | .foreign f => unknown f.kindName .fragments

def harvestBlock : List Stmt → Except Fault Harvest
  | [] => .ok ⟨[], []⟩
  | s :: rest => do
      let first ← harvestStmt s
      let others ← harvestBlock rest
      return first.append others

end

/-- Every statement of a program, and the expressions of assigned values, calls and the result.
The containers that loops run through are left out, since alone they may have no proper type. -/
def fragments (p : Program) : Except Fault Harvest := do
  let body ← harvestBlock p.statements
  match p.result with
  | none => return body
  | some e => do
      let below ← preorder e
      return body.append ⟨[], below⟩

end FragmentSynthesis.Traversal
