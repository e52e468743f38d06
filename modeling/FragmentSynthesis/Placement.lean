import FragmentSynthesis.Weight

namespace FragmentSynthesis.Placement

open FragmentSynthesis.Expression
open FragmentSynthesis.Statement
open FragmentSynthesis.StatementText
open FragmentSynthesis.Weight

/-- A statement in the place of an expression. It is printed and encoded as a statement. -/
def foreignOf (s : Stmt) : Foreign where
  kindName := s.kindName
  isOperand := false
  text := fun style => renderStmt style s
  encoding := encodeStmt s
  weight := weightOfStmt s
  isCopyable := s.isCopyable

/-- A node in the place of an expression. -/
def asExpr : Node → Expr
  | .expr e => e
  | .stmt s => .foreign (foreignOf s)
  | n => .foreign (.bare n.kindName)

/-- A node in the place of a statement. -/
def asStmt : Node → Stmt
  | .stmt s => s
  | .expr e => .foreign (.expression e)
  | n => .foreign (.other n.kindName)

/-- A node in a place that may stay empty. -/
def asOptional : Node → Option Expr
  | .absent => none
  | n => some (asExpr n)

/-- A node in the place of the expression of a concrete test. -/
def asTest (n : Node) : Test :=
  match asOptional n with
  | some e => .concrete e
  | none => .blank

end FragmentSynthesis.Placement
