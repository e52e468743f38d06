import FragmentSynthesis.Weight

namespace FragmentSynthesis.Matching

open FragmentSynthesis.Binary64
open FragmentSynthesis.Expression
open FragmentSynthesis.ExpressionText
open FragmentSynthesis.Faults
open FragmentSynthesis.Programs
open FragmentSynthesis.Statement
open FragmentSynthesis.Traversal
open FragmentSynthesis.UsedNames
open FragmentSynthesis.Values
open FragmentSynthesis.Weight

/-- What a pair of nodes counts when their forms do not go together: nothing, unless both are of
one class that is not known. -/
def countMismatch (fragmentKind kind : String) : Except Fault Nat :=
  if fragmentKind = kind then unknown kind .countMatch else .ok 0

/-- Constants match if they have one text. -/
def countLiterals (v : Value) (type : String) (w : Value) (otherType : String) :
    Except Fault Nat := do
  let text ← literalText v type
  let other ← literalText w otherType
  return if text = other then 1 else 0

mutual

/-- The nodes of a fragment that are found at the same position below an expression. Under
different operators or components nothing is. -/
def count : Expr → Expr → Except Fault Nat
  | .literal v type, .literal w otherType => countLiterals v type w otherType
  | .variable name _, .variable other _ => .ok (if name = other then 1 else 0)
  | .unary op operand, .unary other operand' =>
      if op = other then do
        let operand ← count operand operand'
        return 1 + operand
      else .ok 0
  | .unary .., .binary .. => .ok 0
  | .binary .., .unary .. => .ok 0
  | .binary op left right, .binary other left' right' =>
      if op = other then do
        let left ← count left left'
        let right ← count right right'
        return 1 + left + right
      else .ok 0
  | .use component none args, .use other _ args' =>
      if component.identity = other.identity then do
        let args ← countEach args args'
        return 1 + args
      else .ok 0
  | .use component (some _) args, .use other none args' =>
      if component.identity = other.identity then do
        let args ← countEach args args'
        return 1 + args
      else .ok 0
  | .use component (some receiver) args, .use other (some receiver') args' =>
      if component.identity = other.identity then do
        let receiver ← count receiver receiver'
        let args ← countEach args args'
        return 1 + receiver + args
      else .ok 0
  | fragment, e => countMismatch fragment.kindName e.kindName

def countEach : List Expr → List Expr → Except Fault Nat
  | e :: rest, e' :: rest' => do
      let first ← count e e'
      let others ← countEach rest rest'
      return first + others
  | _, _ => .ok 0

end

/-- Two concrete tests count as their expressions do; an open one counts nothing. -/
def countTests (fragment test : Test) : Except Fault Nat := do
  let e ← testExpression fragment
  let e' ← testExpression test
  match e, e' with
  | some e, some e' => count e e'
  | _, _ => return 0

mutual

/-- How much of a fragment matches a statement of the same form: one for the statement itself,
except for a call, and what its parts match. -/
def countStmt : Stmt → Stmt → Except Fault Nat
  | .assign _ target value, .assign _ target' value' => do
      let target ← count target target'
      let value ← count value value'
      return 1 + target + value
  | .call _ function, .call _ function' => count function function'
  | .branch _ test body, .branch _ test' body' => do
      let test ← countTests test test'
      let body ← countBlock body body'
      return 1 + test + body
  | .loop _ _ test body, .loop _ _ test' body' => do
      let test ← countTests test test'
      let body ← countBlock body body'
      return 1 + test + body
  | .foreach _ _ _ container body, .foreach _ _ _ container' body' => do
      let container ← count container container'
      let body ← countBlock body body'
      return 1 + container + body
  | fragment, s => countMismatch fragment.kindName s.kindName

/-- Statements are matched one by one, up to the end of the shorter block. -/
def countBlock : List Stmt → List Stmt → Except Fault Nat
  | s :: rest, s' :: rest' => do
      let first ← countStmt s s'
      let others ← countBlock rest rest'
      return first + others
  | _, _ => .ok 0

end

mutual

/-- The largest count at an expression or below it. -/
def search (fragment : Expr) : Expr → Except Fault Nat
  | .literal value type => count fragment (.literal value type)
  | .variable name type => count fragment (.variable name type)
  | .unary op operand => do
      let here ← count fragment (.unary op operand)
      let below ← search fragment operand
      return max here below
  | .binary op left right => do
      let here ← count fragment (.binary op left right)
      let first ← search fragment left
      let second ← search fragment right
      return max (max here first) second
  | .use component none args => do
      let here ← count fragment (.use component none args)
      let below ← searchEach fragment args
      return max here below
  | .use component (some receiver) args => do
      let here ← count fragment (.use component (some receiver) args)
      let first ← search fragment receiver
      let below ← searchEach fragment args
      return max (max here first) below
  | .foreign f => do
      let _ ← count fragment (.foreign f)
      unknown f.kindName .searchMatch

def searchEach (fragment : Expr) : List Expr → Except Fault Nat
  | [] => .ok 0
  | e :: rest => do
      let first ← search fragment e
      let others ← searchEach fragment rest
      return max first others

end

/-- The best match in a test, where there is none in an open test. -/
def searchTest (fragment : Expr) (test : Test) : Except Fault Nat := do
  match ← testExpression test with
  | none => return 0
  | some e => search fragment e

mutual

/-- The largest count of an expression over the expressions of a statement. -/
def searchInStmt (fragment : Expr) : Stmt → Except Fault Nat
  | .assign _ target value => do
      let first ← search fragment target
      let second ← search fragment value
      return max first second
  | .call _ function => search fragment function
  | .branch _ test body => do
      let first ← searchTest fragment test
      let below ← searchInBlock fragment body
      return max first below
  | .loop _ _ test body => do
      let first ← searchTest fragment test
      let below ← searchInBlock fragment body
      return max first below
  | .foreach _ _ _ container body => do
      let first ← search fragment container
      let below ← searchInBlock fragment body
      return max first below
  | .foreign f => unknown f.kindName .searchMatch

def searchInBlock (fragment : Expr) : List Stmt → Except Fault Nat
  | [] => .ok 0
  | s :: rest => do
      let first ← searchInStmt fragment s
      let others ← searchInBlock fragment rest
      return max first others

end

mutual

/-- The largest count of a statement at another one or in its blocks. -/
def searchStmt (fragment : Stmt) : Stmt → Except Fault Nat
  | .assign indent target value => countStmt fragment (.assign indent target value)
  | .call indent function => countStmt fragment (.call indent function)
  | .branch indent test body => do
      let here ← countStmt fragment (.branch indent test body)
      let below ← searchBlock fragment body
      return max here below
  | .loop indent head test body => do
      let here ← countStmt fragment (.loop indent head test body)
      let below ← searchBlock fragment body
      return max here below
  | .foreach indent name type container body => do
      let here ← countStmt fragment (.foreach indent name type container body)
      let below ← searchBlock fragment body
      return max here below
  | .foreign f => do
      let _ ← countStmt fragment (.foreign f)
      unknown f.kindName .body

def searchBlock (fragment : Stmt) : List Stmt → Except Fault Nat
  | [] => .ok 0
  | s :: rest => do
      let first ← searchStmt fragment s
      let others ← searchBlock fragment rest
      return max first others

end

/-- The largest count of a fragment in a program. -/
def bestMatch (fragment : Node) (p : Program) : Except Fault Nat :=
  match fragment with
  | .stmt s => searchBlock s p.statements
  | .expr e => do
      let body ← searchInBlock e p.statements
      match p.result with
      | none => return body
      | some result => do
          let result ← search e result
          return max body result
  | n => unknown n.kindName .computeUsefulness

/-- The largest fraction of a fragment's weight that is found in a program. -/
def usefulness (fragment : Node) (p : Program) : Except Fault Double := do
  let best ← bestMatch fragment p
  let weight ← weightOfNode fragment
  return div (ofInt best) (ofInt weight)

end FragmentSynthesis.Matching
