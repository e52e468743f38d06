import FragmentSynthesis.Scopes
import FragmentSynthesis.StatementText

namespace FragmentSynthesis.Programs

open FragmentSynthesis.Expression
open FragmentSynthesis.ExpressionText
open FragmentSynthesis.Faults
open FragmentSynthesis.NameSets
open FragmentSynthesis.OrderedMaps
open FragmentSynthesis.Scopes
open FragmentSynthesis.Statement
open FragmentSynthesis.StatementText
open FragmentSynthesis.TypeName

/-- A method under construction: its scope, which has its name and parameters, its statements and
what it returns. -/
structure Program where
  returnType : String
  scope : Scope
  statements : List Stmt
  result : Option Expr

/-- A program that has only its parameters. -/
def Program.new (name returnType : String) (parameters : OrderedMap String String) : Program :=
  ⟨returnType, Scope.ofParameters name parameters, [], none⟩

/-- The name of a program is that of the owner of its scope. -/
def Program.name (p : Program) : String :=
  p.scope.owner

def Program.returns (p : Program) : Bool :=
  p.result.isSome

/-- Appends a statement. -/
def Program.addStatement (p : Program) (s : Stmt) : Program :=
  { p with statements := p.statements ++ [s] }

/-- Replaces what the program returns. -/
def Program.setResult (p : Program) (e : Option Expr) : Program :=
  { p with result := e }

/-- Nothing in the program is of a kind that cannot be copied. -/
def Program.isCopyable (p : Program) : Bool :=
  blockCopyable p.statements && p.result.all (·.isCopyable)

/-- A copy of its own, whose index is made anew. -/
def Program.copy (p : Program) : Except Fault Program :=
  if p.isCopyable then .ok { p with scope := p.scope.reindexed } else .error .missingPart

def Program.isKnown (p : Program) : Bool :=
  blockKnown p.statements && p.result.all (·.isKnown)

def parameterText (style : NameStyle) (entry : String × String) : String :=
  styled style entry.2 ++ " " ++ entry.1

/-- The line that opens the program. -/
def headerText (style : NameStyle) (p : Program) : String :=
  "public static " ++ styled style p.returnType ++ " " ++ p.name ++ "("
    ++ ", ".intercalate (p.scope.parameters.entries.map (parameterText style)) ++ ") \x7b\n"

/-- The line that declares a local with the default value of its type. -/
def localText (style : NameStyle) (entry : String × String) : String :=
  "    " ++ styled style entry.2 ++ " " ++ entry.1 ++ " = " ++ defaultValue entry.2 ++ ";\n"

def counterText (name : String) : String :=
  "    int " ++ name ++ " = 0;\n"

/-- The source text of a program: the header, the declarations of locals and then of counters by
name, the statements and what is returned. -/
def renderProgram (style : NameStyle) (p : Program) : Except Fault String := do
  let statements ← renderBlock style p.statements
  let result ← match p.result with
    | none => pure ""
    | some e => do
        let text ← render style e
        pure ("    return " ++ text ++ ";\n")
  return headerText style p ++ concat (p.scope.locals.entries.map (localText style))
    ++ concat (p.scope.counters.sorted.map counterText) ++ statements ++ result ++ "\x7d\n"

/-- A local in an encoding, with its type. -/
def localEncoding (locals : OrderedMap String String) (name : String) : String :=
  name ++ ":" ++ (locals.get? name).getD "" ++ ";"

/-- The encoding of a program. Locals and counters are sorted, so that the order of their
declarations does not show. -/
def encodeProgram (p : Program) : Except Fault String := do
  let statements ← encodeBlock p.statements
  let result ← match p.result with
    | none => pure ""
    | some e => do
        let text ← encode e
        pure ("R" ++ text)
  return "P" ++ concat ((sortNames p.scope.locals.keys).map (localEncoding p.scope.locals))
    ++ concat (p.scope.counters.sorted.map (· ++ ";")) ++ "\x7b" ++ statements ++ "\x7d" ++ result

/-- Whether two programs count as equal: they have one encoding. -/
def sameProgram (p q : Program) : Except Fault Bool := do
  let x ← encodeProgram p
  let y ← encodeProgram q
  return x == y

def Program.describe (p : Program) : String :=
  "Program(" ++ p.name ++ ", " ++ toString p.statements.length ++ " statements)"

end FragmentSynthesis.Programs
