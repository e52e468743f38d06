import FragmentSynthesis.Blank
import FragmentSynthesis.ExpressionText
import FragmentSynthesis.Statement

namespace FragmentSynthesis.StatementText

open FragmentSynthesis.Blank
open FragmentSynthesis.Components
open FragmentSynthesis.Expression
open FragmentSynthesis.ExpressionText
open FragmentSynthesis.Faults
open FragmentSynthesis.QuotedText
open FragmentSynthesis.Statement
open FragmentSynthesis.TypeName

/-- Four spaces for each level; none for a negative one. -/
def margin (indent : Int) : String :=
  String.ofList (List.replicate (4 * indent.toNat) ' ')

/-- The text of a test. An open one is a question mark, or what it remembers behind a comment. -/
def renderTest (style : NameStyle) : Test → Except Fault String
  | .concrete e => render style e
  | .angelic none => .ok "?"
  | .angelic (some e) => do
      let text ← render style e
      return "/* angelic */ " ++ text
  | .blank => .error .missingPart
  | .unknown => .ok "maybe"

/-- The name that an assignment shows for its target. -/
def targetName (style : NameStyle) : Expr → Except Fault String
  | .variable name _ => .ok name
  | .use component _ _ => .ok (component.displayName style)
  | _ => .error .missingPart

/-- The header of a loop that counts from zero or only tests. -/
def loopHeader (head : LoopHead) (test : String) : String :=
  match head with
  | .counting counter declared =>
      "for (" ++ (if declared then "int " else "") ++ counter ++ " = 0; " ++ test ++ "; "
        ++ counter ++ "++)"
  | .testing _ => "while (" ++ test ++ ")"

/-- A block with its header, at a depth. -/
def blockText (indent : Int) (header body : String) : String :=
  margin indent ++ header ++ " \x7b\n" ++ body ++ margin indent ++ "\x7d\n"

mutual

/-- The lines of a statement at its depth, or the first fault in reading order. -/
def renderStmt (style : NameStyle) : Stmt → Except Fault String
  | .assign indent target value => do
      let name ← targetName style target
      let value ← render style value
      return margin indent ++ name ++ " = " ++ value ++ ";\n"
  | .call indent function => do
      let text ← render style function
      return margin indent ++ text ++ ";\n"
  | .branch indent test body => do
      let test ← renderTest style test
      let body ← renderBlock style body
      return blockText indent ("if (" ++ test ++ ")") body
  | .loop indent head test body => do
      let test ← renderTest style test
      let body ← renderBlock style body
      return blockText indent (loopHeader head test) body
  | .foreach indent name type container body => do
      let container ← render style container
      let body ← renderBlock style body
      return blockText indent
        ("for (" ++ styled style type ++ " " ++ name ++ " : " ++ container ++ ")") body
  | .foreign (.pass indent) => .ok (margin indent ++ ";\n")
  | .foreign (.expression e) => render style e
  | .foreign (.other _) => .error .missingPart

def renderBlock (style : NameStyle) : List Stmt → Except Fault String
  | [] => .ok ""
  | s :: rest => do
      let text ← renderStmt style s
      let rest ← renderBlock style rest
      return text ++ rest

end

/-- The encoding of a test. All open ones have the same. -/
def encodeTest : Test → Except Fault String
  | .concrete e => encode e
  | .angelic _ => .ok "?"
  | .blank => .error .missingPart
  | .unknown => .ok "m"

/-- The counter of a loop that counts, or the letter of one that tests. -/
def encodeHead : LoopHead → String
  | .counting counter _ => "r" ++ counter ++ ";"
  | .testing _ => "w"

mutual

/-- The encoding of a statement: the letter of its form, its parts and its block in braces. -/
def encodeStmt : Stmt → Except Fault String
  | .assign _ target value => do
      let target ← encode target
      let value ← encode value
      return "a" ++ target ++ value
  | .call _ function => do
      let function ← encode function
      return "x" ++ function
  | .branch _ test body => do
      let test ← encodeTest test
      let body ← encodeBlock body
      return "i" ++ test ++ "\x7b" ++ body ++ "\x7d"
  | .loop _ head test body => do
      let test ← encodeTest test
      let body ← encodeBlock body
      return encodeHead head ++ test ++ "\x7b" ++ body ++ "\x7d"
  | .foreach _ name type container body => do
      let container ← encode container
      let body ← encodeBlock body
      return "e" ++ name ++ ";" ++ type ++ ";" ++ container ++ "\x7b" ++ body ++ "\x7d"
  | .foreign (.pass _) => .ok "_"
  | .foreign (.expression e) => encode e
  | .foreign (.other _) => .error .missingPart

def encodeBlock : List Stmt → Except Fault String
  | [] => .ok ""
  | s :: rest => do
      let s ← encodeStmt s
      let rest ← encodeBlock rest
      return s ++ rest

end

/-- The text of a node, where one that is neither an expression nor a statement has none. -/
def renderNode (style : NameStyle) : Node → Except Fault String
  | .expr e => render style e
  | .stmt s => renderStmt style s
  | .text _ => .error .missingPart
  | .absent => .error .missingPart

/-- The encoding of a node, where one that is neither an expression nor a statement has none. -/
def encodeNode : Node → Except Fault String
  | .expr e => encode e
  | .stmt s => encodeStmt s
  | .text _ => .error .missingPart
  | .absent => .error .missingPart

/-- A node on one line, under the name of its class. Statements are quoted. -/
def describeNode (style : NameStyle) : Node → Except Fault String
  | .expr e => do
      let text ← render style e
      return e.kindName ++ "(" ++ text ++ ")"
  | .stmt s => do
      let text ← renderStmt style s
      return s.kindName ++ "(" ++ quoted (trim text) ++ ")"
  | .text s => .ok (quoted s)
  | .absent => .ok "None"

/-- A test as it is shown in logs. -/
def describeTest (style : NameStyle) : Test → Except Fault String
  | .concrete e => do
      let text ← render style e
      return "ConcreteCondition(" ++ text ++ ")"
  | .angelic none => .ok "AngelicCondition()"
  | .angelic (some e) => do
      let text ← render style e
      return "AngelicCondition(" ++ text ++ ")"
  | .blank => .error .missingPart
  | .unknown => .ok "Maybe()"

/-- What nodes that count as equal have in common: the class and the encoding. -/
def nodeKey : Node → Except Fault (String × String)
  | .text s => .ok ((Node.text s).kindName, s)
  | .absent => .ok (Node.absent.kindName, "")
  | n => do
      let code ← encodeNode n
      return (n.kindName, code)

/-- Whether two nodes count as equal: they are of one class and have one encoding. -/
def sameNode : Node → Node → Except Fault Bool
  | .expr a, .expr b => do
      if a.kindName ≠ b.kindName then return false
      let x ← encode a
      let y ← encode b
      return x == y
  | .stmt a, .stmt b => do
      if a.kindName ≠ b.kindName then return false
      let x ← encodeStmt a
      let y ← encodeStmt b
      return x == y
  | .text a, .text b => .ok (a == b)
  | .absent, .absent => .ok true
  | _, _ => .ok false

end FragmentSynthesis.StatementText
