import FragmentSynthesis.UsedNames

namespace FragmentSynthesis.Weight

open FragmentSynthesis.Expression
open FragmentSynthesis.Faults
open FragmentSynthesis.Programs
open FragmentSynthesis.Statement
open FragmentSynthesis.Traversal
open FragmentSynthesis.UsedNames

mutual

/-- The number of constants, variables, operators and components in an expression. -/
def weight : Expr → Except Fault Nat
  | .literal .. => .ok 1
  | .variable .. => .ok 1
  | .unary _ operand => do
      let operand ← weight operand
      return 1 + operand
  | .binary _ left right => do
      let left ← weight left
      let right ← weight right
      return 1 + left + right
  | .use _ none args => do
      let args ← weightEach args
      return 1 + args
  | .use _ (some receiver) args => do
      let receiver ← weight receiver
      let args ← weightEach args
      return 1 + receiver + args
  | .foreign f => unknown f.kindName .size

def weightEach : List Expr → Except Fault Nat
  | [] => .ok 0
  | e :: rest => do
      let first ← weight e
      let others ← weightEach rest
      return first + others

end

/-- An open or blank test weighs nothing. -/
def weightOfTest (test : Test) : Except Fault Nat := do
  match ← testExpression test with
  | none => return 0
  | some e => weight e

mutual

/-- An assignment weighs two more than its value, for the name and the sign; a block one more
than its parts. -/
def weightOfStmt : Stmt → Except Fault Nat
  | .assign _ _ value => do
      let value ← weight value
      return 2 + value
  | .call _ function => weight function
  | .branch _ test body => do
      let test ← weightOfTest test
      let body ← weightOfBlock body
      return 1 + test + body
  | .loop _ _ test body => do
      let test ← weightOfTest test
      let body ← weightOfBlock body
      return 1 + test + body
  | .foreach _ _ _ container body => do
      let container ← weight container
      let body ← weightOfBlock body
      return 1 + container + body
  | .foreign f => unknown f.kindName .size

def weightOfBlock : List Stmt → Except Fault Nat
  | [] => .ok 0
  | s :: rest => do
      let first ← weightOfStmt s
      let others ← weightOfBlock rest
      return first + others

end

/-- An expression that stands alone among the statements of a program weighs what it weighs
elsewhere. -/
def weightAtTop : Stmt → Except Fault Nat
  | .foreign (.expression e) => weight e
  | s => weightOfStmt s

def weightOfTop : List Stmt → Except Fault Nat
  | [] => .ok 0
  | s :: rest => do
      let first ← weightAtTop s
      let others ← weightOfTop rest
      return first + others

/-- What is foreign in the place of a result weighs what it weighs elsewhere. -/
def weightOfResult : Expr → Except Fault Nat
  | .foreign f => f.weight
  | e => weight e

/-- Of a local only its declaration counts. -/
def weightOfProgram (p : Program) : Except Fault Nat := do
  let body ← weightOfTop p.statements
  match p.result with
  | none => return p.scope.locals.size + body
  | some e => do
      let result ← weightOfResult e
      return p.scope.locals.size + body + result

/-- The weight of an expression or a statement. Other nodes are refused. -/
def weightOfNode : Node → Except Fault Nat
  | .expr e => weight e
  | .stmt s => weightOfStmt s
  | n => unknown n.kindName .size

/-- One for an open test and zero for any other. -/
def openTest (test : Test) : Nat :=
  if test.isAngelic then 1 else 0

mutual

/-- The number of open tests in a statement. -/
def openTests : Stmt → Except Fault Nat
  | .assign .. => .ok 0
  | .call .. => .ok 0
  | .branch _ test body => do
      let body ← openTestsInBlock body
      return openTest test + body
  | .loop _ _ test body => do
      let body ← openTestsInBlock body
      return openTest test + body
  | .foreach _ _ _ _ body => openTestsInBlock body
  | .foreign f => unknown f.kindName .angelicCount

def openTestsInBlock : List Stmt → Except Fault Nat
  | [] => .ok 0
  | s :: rest => do
      let first ← openTests s
      let others ← openTestsInBlock rest
      return first + others

end

/-- The number of branches and loops whose test is open. -/
def angelicCount (p : Program) : Except Fault Nat :=
  openTestsInBlock p.statements

end FragmentSynthesis.Weight
