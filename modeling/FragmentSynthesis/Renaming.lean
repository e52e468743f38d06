import FragmentSynthesis.Programs
import FragmentSynthesis.StoppingChanges
import FragmentSynthesis.Traversal

namespace FragmentSynthesis.Renaming

open FragmentSynthesis.Expression
open FragmentSynthesis.Faults
open FragmentSynthesis.OrderedMaps
open FragmentSynthesis.Programs
open FragmentSynthesis.Scopes
open FragmentSynthesis.Statement
open FragmentSynthesis.StoppingChanges

/-- The function of a map of names, which keeps the names that are no keys. -/
def extend (renames : OrderedMap String String) (name : String) : String :=
  (renames.get? name).getD name

mutual

/-- Replaces the name of each variable by its image. -/
def renameExpr (f : String → String) : Expr → Stopping Expr
  | .literal value type => return .literal value type
  | .variable name type => do
      let name ← change name (f name)
      return .variable name type
  | .unary op operand => do
      let operand ← renameExpr f operand
      return .unary op operand
  | .binary op left right => do
      let left ← renameExpr f left
      let right ← renameExpr f right
      return .binary op left right
  | .use component none args => do
      let args ← renameArgs f args
      return .use component none args
  | .use component (some receiver) args => do
      let receiver ← renameExpr f receiver
      let args ← renameArgs f args
      return .use component (some receiver) args
  | .foreign g => do
      stop (.unknownNode g.kindName .substitute)
      return .foreign g

def renameArgs (f : String → String) : List Expr → Stopping (List Expr)
  | [] => return []
  | e :: rest => do
      let e ← renameExpr f e
      let rest ← renameArgs f rest
      return e :: rest

end

/-- Also the expression that an open test remembers is renamed. -/
def renameTest (f : String → String) : Test → Stopping Test
  | .concrete e => do
      let e ← renameExpr f e
      return .concrete e
  | .angelic none => return .angelic none
  | .angelic (some e) => do
      let e ← renameExpr f e
      return .angelic (some e)
  | .blank => return .blank
  | .unknown => do
      stop (.unknownNode Test.unknown.kindName .concrete)
      return .unknown

/-- Replaces the name of a counter. A loop that only tests may carry one too. -/
def renameHead (f : String → String) : LoopHead → Stopping LoopHead
  | .counting counter declared => do
      let counter ← change counter (f counter)
      return .counting counter declared
  | .testing counter => do
      let counter ← change counter (counter.map f)
      return .testing counter

mutual

/-- Replaces all names in a statement. In a loop through elements the element comes first and the
container last. -/
def renameStmt (f : String → String) : Stmt → Stopping Stmt
  | .assign indent target value => do
      let target ← renameExpr f target
      let value ← renameExpr f value
      return .assign indent target value
  | .call indent function => do
      let function ← renameExpr f function
      return .call indent function
  | .branch indent test body => do
      let test ← renameTest f test
      let body ← renameBlock f body
      return .branch indent test body
  | .loop indent head test body => do
      let head ← renameHead f head
      let test ← renameTest f test
      let body ← renameBlock f body
      return .loop indent head test body
  | .foreach indent name type container body => do
      let name ← change name (f name)
      let body ← renameBlock f body
      let container ← renameExpr f container
      return .foreach indent name type container body
  | .foreign g => do
      stop (.unknownNode g.kindName .substitute)
      return .foreign g

def renameBlock (f : String → String) : List Stmt → Stopping (List Stmt)
  | [] => return []
  | s :: rest => do
      let s ← renameStmt f s
      let rest ← renameBlock f rest
      return s :: rest

end

/-- Replaces all names in an expression or a statement. Other nodes are refused. -/
def renameNode (f : String → String) : Node → Stopping Node
  | .expr e => do
      let e ← renameExpr f e
      return .expr e
  | .stmt s => do
      let s ← renameStmt f s
      return .stmt s
  | n => do
      stop (.unknownNode n.kindName .substitute)
      return n

/-- Replaces the names in what is returned. -/
def renameResult (f : String → String) : Option Expr → Stopping (Option Expr)
  | none => return none
  | some e => do
      let e ← renameExpr f e
      return some e

/-- The scope is renamed first. Its index of types stays as it is. -/
def renameProgram (f : String → String) (p : Program) : Stopping Program := do
  let statements ← renameBlock f p.statements
  let result ← renameResult f p.result
  return { p with scope := p.scope.rename f, statements := statements, result := result }

end FragmentSynthesis.Renaming
