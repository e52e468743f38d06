import FragmentSynthesis.Expression

namespace FragmentSynthesis.Statement

open FragmentSynthesis.Expression
open FragmentSynthesis.Faults

/-- The test of a branch or loop. An angelic one is still open and may remember the expression it
was resolved to; a blank one should be concrete but lacks its expression; the last form is unknown
to the analyses. -/
inductive Test
  | concrete (e : Expr)
  | angelic (remembered : Option Expr)
  | blank
  | unknown

def Test.kindName : Test → String
  | .concrete _ => "ConcreteCondition"
  | .angelic _ => "AngelicCondition"
  | .blank => "ConcreteCondition"
  | .unknown => "Maybe"

/-- The test is open. -/
def Test.isAngelic : Test → Bool
  | .angelic _ => true
  | _ => false

/-- Nothing in the test is foreign. -/
def Test.isKnown : Test → Bool
  | .concrete e => e.isKnown
  | .angelic none => true
  | .angelic (some e) => e.isKnown
  | .blank => false
  | .unknown => false

def Test.isCopyable : Test → Bool
  | .concrete e => e.isCopyable
  | .angelic none => true
  | .angelic (some e) => e.isCopyable
  | .blank => false
  | .unknown => true

/-- A loop counts up from zero or only tests. The counter is declared in the header of the loop
or with the other counters of the program. -/
inductive LoopHead
  | counting (counter : String) (declared : Bool)
  | testing (counter : Option String)
  deriving DecidableEq

/-- What is no statement of the language: an empty statement, an expression in the place of a
statement, or something else, named by its class, that has no text at all. -/
inductive ForeignStmt
  | pass (indent : Int)
  | expression (e : Expr)
  | other (kind : String)

/-- A statement, which has its own depth. Calls are any expressions that stand as statements, and
what is of no known form is foreign. -/
inductive Stmt
  | assign (indent : Int) (target value : Expr)
  | call (indent : Int) (function : Expr)
  | branch (indent : Int) (test : Test) (body : List Stmt)
  | loop (indent : Int) (head : LoopHead) (test : Test) (body : List Stmt)
  | foreach (indent : Int) (name type : String) (container : Expr) (body : List Stmt)
  | foreign (f : ForeignStmt)

def ForeignStmt.kindName : ForeignStmt → String
  | .pass _ => "Pass"
  | .expression e => e.kindName
  | .other kind => kind

def Stmt.kindName : Stmt → String
  | .assign .. => "VarAssignment"
  | .call .. => "FuncStatement"
  | .branch .. => "IfStatement"
  | .loop .. => "ForLoop"
  | .foreach .. => "ForEachLoop"
  | .foreign f => f.kindName

/-- The depth of a statement. Foreign ones without any stand at depth one. -/
def Stmt.indent : Stmt → Int
  | .assign indent .. => indent
  | .call indent _ => indent
  | .branch indent .. => indent
  | .loop indent .. => indent
  | .foreach indent .. => indent
  | .foreign (.pass indent) => indent
  | .foreign _ => 1

/-- A loop that counts needs a counter. -/
def loopHead (counter : Option String) (isTesting declared : Bool) :
    Except Fault LoopHead :=
  if isTesting then .ok (.testing counter)
  else
    match counter with
    | some counter => .ok (.counting counter declared)
    | none => .error .missingCounter

mutual

/-- Nothing in the statement is foreign. -/
def Stmt.isKnown : Stmt → Bool
  | .assign _ target value => target.isKnown && value.isKnown
  | .call _ function => function.isKnown
  | .branch _ test body => test.isKnown && blockKnown body
  | .loop _ _ test body => test.isKnown && blockKnown body
  | .foreach _ _ _ container body => container.isKnown && blockKnown body
  | .foreign _ => false

def blockKnown : List Stmt → Bool
  | [] => true
  | s :: rest => s.isKnown && blockKnown rest

end

mutual

/-- Nothing in the statement is of a kind that cannot be copied. -/
def Stmt.isCopyable : Stmt → Bool
  | .assign _ target value => target.isCopyable && value.isCopyable
  | .call _ function => function.isCopyable
  | .branch _ test body => test.isCopyable && blockCopyable body
  | .loop _ _ test body => test.isCopyable && blockCopyable body
  | .foreach _ _ _ container body => container.isCopyable && blockCopyable body
  | .foreign (.pass _) => true
  | .foreign (.expression e) => e.isCopyable
  | .foreign (.other _) => false

def blockCopyable : List Stmt → Bool
  | [] => true
  | s :: rest => s.isCopyable && blockCopyable rest

end

/-- A piece of a program, or a text or nothing at all that stands where one is expected. -/
inductive Node
  | expr (e : Expr)
  | stmt (s : Stmt)
  | text (s : String)
  | absent

/-- The name of the class of a node, as faults report it. -/
def Node.kindName : Node → String
  | .expr e => e.kindName
  | .stmt s => s.kindName
  | .text _ => "str"
  | .absent => "NoneType"

/-- A text and nothing at all are copies of themselves as long as they stand alone. -/
def Node.isCopyable : Node → Bool
  | .expr e => e.isCopyable
  | .stmt s => s.isCopyable
  | .text _ => true
  | .absent => true

/-- A copy of a node is the node itself, if all of it can be copied. -/
def Node.copy (n : Node) : Except Fault Node :=
  if n.isCopyable then .ok n else .error .missingPart

end FragmentSynthesis.Statement
