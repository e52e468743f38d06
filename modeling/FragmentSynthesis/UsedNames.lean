import FragmentSynthesis.Traversal

namespace FragmentSynthesis.UsedNames

open FragmentSynthesis.Expression
open FragmentSynthesis.Faults
open FragmentSynthesis.NameSets
open FragmentSynthesis.Programs
open FragmentSynthesis.Statement
open FragmentSynthesis.Traversal

/-- The expression of a test, unless it is open or blank. -/
def testExpression : Test → Except Fault (Option Expr)
  | .concrete e => .ok (some e)
  | .angelic _ => .ok none
  | .blank => .ok none
  | .unknown => unknown Test.unknown.kindName .concrete

mutual

/-- The names of the variables in an expression, in the order in which they stand there. -/
def usedNames : Expr → Except Fault (List String)
  | .literal .. => .ok []
  | .variable name _ => .ok [name]
  | .unary _ operand => usedNames operand
  | .binary _ left right => do
      let first ← usedNames left
      let second ← usedNames right
      return first ++ second
  | .use _ none args => usedNamesEach args
  | .use _ (some receiver) args => do
      let first ← usedNames receiver
      let others ← usedNamesEach args
      return first ++ others
  | .foreign f => unknown f.kindName .usedVars

def usedNamesEach : List Expr → Except Fault (List String)
  | [] => .ok []
  | e :: rest => do
      let first ← usedNames e
      let others ← usedNamesEach rest
      return first ++ others

end

/-- The names in a concrete test. An open one uses none. -/
def usedNamesInTest (test : Test) : Except Fault (List String) := do
  match ← testExpression test with
  | none => return []
  | some e => usedNames e

/-- The counter of a counting loop, where counters count as used. -/
def counterNames (withCounters : Bool) : LoopHead → List String
  | .counting counter _ => if withCounters then [counter] else []
  | .testing _ => []

mutual

/-- The names that a statement uses, and with them those of its counters if asked. -/
def usedNamesInStmt (withCounters : Bool) : Stmt → Except Fault (List String)
  | .assign _ target value => do
      let first ← usedNames target
      let second ← usedNames value
      return first ++ second
  | .call _ function => usedNames function
  | .branch _ test body => do
      let first ← usedNamesInTest test
      let others ← usedNamesInBlock withCounters body
      return first ++ others
  | .loop _ head test body => do
      let first ← usedNamesInTest test
      let others ← usedNamesInBlock withCounters body
      return first ++ others ++ counterNames withCounters head
  | .foreach _ name _ container body => do
      let first ← usedNames container
      let others ← usedNamesInBlock withCounters body
      return first ++ others ++ [name]
  | .foreign f => unknown f.kindName .usedVars

def usedNamesInBlock (withCounters : Bool) : List Stmt → Except Fault (List String)
  | [] => .ok []
  | s :: rest => do
      let first ← usedNamesInStmt withCounters s
      let others ← usedNamesInBlock withCounters rest
      return first ++ others

end

/-- The names that a program uses. With counters, that of a counting loop is used even if nothing
reads it. -/
def usedVariables (withCounters : Bool) (p : Program) : Except Fault NameSet := do
  let body ← usedNamesInBlock withCounters p.statements
  match p.result with
  | none => return NameSet.ofList body
  | some e => do
      let names ← usedNames e
      return NameSet.ofList (body ++ names)

mutual

/-- Whether a variable occurs, looking no further than the first. -/
def containsVariable : Expr → Except Fault Bool
  | .literal .. => .ok false
  | .variable .. => .ok true
  | .unary _ operand => containsVariable operand
  | .binary _ left right => do
      if ← containsVariable left then return true
      containsVariable right
  | .use _ none args => anyContainsVariable args
  | .use _ (some receiver) args => do
      if ← containsVariable receiver then return true
      anyContainsVariable args
  | .foreign f => unknown f.kindName .containsVar

def anyContainsVariable : List Expr → Except Fault Bool
  | [] => .ok false
  | e :: rest => do
      if ← containsVariable e then return true
      anyContainsVariable rest

end

end FragmentSynthesis.UsedNames
