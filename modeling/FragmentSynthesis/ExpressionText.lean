import FragmentSynthesis.Expression
import FragmentSynthesis.LiteralEscape

namespace FragmentSynthesis.ExpressionText

open FragmentSynthesis.Binary64
open FragmentSynthesis.Components
open FragmentSynthesis.DecimalText
open FragmentSynthesis.Expression
open FragmentSynthesis.Faults
open FragmentSynthesis.LiteralEscape
open FragmentSynthesis.Operators
open FragmentSynthesis.TypeName
open FragmentSynthesis.Values

/-- A number as a double. -/
def toDouble : Value → Except Fault Double
  | .float x => .ok x
  | .int n =>
      match ofInt? n with
      | some x => .ok x
      | none => .error .numberTooLarge
  | _ => .error .notANumber

/-- The source text of a constant. Null, truth values, characters and texts come first; then the
type decides how a number is written. -/
def literalText (value : Value) (type : String) : Except Fault String :=
  match value with
  | .null => .ok "null"
  | .bool b => .ok (if b then "true" else "false")
  | value =>
      if type = "char" then .ok (delimited '\'' value.content)
      else
        match value with
        | .text s => .ok (delimited '"' s)
        | value =>
            if type = "long" then .ok (value.describe ++ "L")
            else if type = "float" then (toDouble value).map fun x => shortest x ++ "f"
            else if type = "double" then (toDouble value).map shortest
            else .ok value.describe

/-- A constant that starts with a minus sign binds like a negation. -/
def literalPrecedence (text : String) : Precedence :=
  if text.startsWith "-" then .unary else .atom

/-- How tightly the use of a component binds. -/
def kindPrecedence : Kind → Precedence
  | .constructor => .new
  | .arraySet => .assignment
  | _ => .dot

/-- How tightly the text of an expression binds. That of a constant depends on its text. -/
def precedence : Expr → Except Fault Precedence
  | .literal value type => (literalText value type).map literalPrecedence
  | .variable .. => .ok .atom
  | .unary .. => .ok .unary
  | .binary op _ _ => .ok op.precedence
  | .use component _ _ => .ok (kindPrecedence component.kind)
  | .foreign f => if f.isOperand then .ok .atom else .error .missingPart

/-- Puts a text in parentheses if asked. -/
def wrap (parens : Bool) (text : String) : String :=
  if parens then "(" ++ text ++ ")" else text

/-- One of the texts made for a list, or its fault; there may be none at that place. -/
def pick (texts : List (Except Fault String)) (i : Nat) : Except Fault String :=
  match texts[i]? with
  | some text => text
  | none => .error .outOfRange

def concat : List String → String
  | [] => ""
  | text :: rest => text ++ concat rest

/-- All texts made for a list, or the first fault. -/
def sequence : List (Except Fault String) → Except Fault (List String)
  | [] => .ok []
  | text :: rest => do
      let text ← text
      let rest ← sequence rest
      return text :: rest

/-- The text of a component in use. The receiver is wrapped where it binds less than the use; of
the arguments of an array operation the first is the array. -/
def useText (style : NameStyle) (component : Component) (receiver : Option (Except Fault String))
    (array : Except Fault String) (args : List (Except Fault String)) : Except Fault String :=
  let receiverText := receiver.getD (.ok (component.displayType style))
  match component.kind with
  | .method => do
      let receiver ← receiverText
      let args ← sequence args
      return receiver ++ "." ++ component.displayName style ++ "(" ++ ", ".intercalate args ++ ")"
  | .constructor => do
      let args ← sequence args
      return "new " ++ component.displayName style ++ "(" ++ ", ".intercalate args ++ ")"
  | .field => do
      let receiver ← if component.isStatic then .ok (component.displayType style)
        else receiverText
      return receiver ++ "." ++ component.displayName style
  | .arrayGet => do
      let array ← array
      let index ← pick args 1
      return array ++ "[" ++ index ++ "]"
  | .arraySet => do
      let array ← array
      let index ← pick args 1
      let value ← pick args 2
      return array ++ "[" ++ index ++ "] = " ++ value
  | .arrayLength => do
      let array ← array
      return array ++ ".length"

/-- A child in the leftmost place, wrapped if it binds less than its parent. -/
def leftText (parent : Precedence) (child : Except Fault Precedence)
    (text : Except Fault String) : Except Fault String := do
  let child ← child
  let text ← text
  return wrap (parent.parenLeft child) text

/-- A child in the rightmost place, wrapped if it does not bind more than its parent. -/
def rightText (parent : Precedence) (child : Except Fault Precedence)
    (text : Except Fault String) : Except Fault String := do
  let child ← child
  let text ← text
  return wrap (parent.parenRight child) text

/-- The operand of a unary operator. One that starts with the operator's symbol is wrapped, so
that two signs do not run together. -/
def operandText (op : UnaryOp) (child : Except Fault Precedence)
    (text : Except Fault String) : Except Fault String := do
  let text ← text
  let child ← child
  return wrap (Precedence.unary.parenRight child || text.startsWith op.symbol) text

/-- The first argument as the array of an array operation. -/
def arrayText (args : List Expr) (texts : List (Except Fault String)) : Except Fault String :=
  match args with
  | [] => .error .outOfRange
  | array :: _ => leftText .dot (precedence array) (pick texts 0)

mutual

/-- The source text of an expression in a style, or the first fault in reading order. Operands and
receivers get parentheses where their binding asks for them. -/
def render (style : NameStyle) : Expr → Except Fault String
  | .literal value type => literalText value type
  | .variable name _ => .ok name
  | .unary op operand => do
      let text ← operandText op (precedence operand) (render style operand)
      return op.symbol ++ text
  | .binary op left right => do
      let leftPart ← leftText op.precedence (precedence left) (render style left)
      let rightPart ← rightText op.precedence (precedence right) (render style right)
      return leftPart ++ " " ++ op.symbol ++ " " ++ rightPart
  | .use component none args =>
      let texts := renderEach style args
      useText style component none (arrayText args texts) texts
  | .use component (some receiver) args =>
      let texts := renderEach style args
      useText style component
        (some (leftText (kindPrecedence component.kind) (precedence receiver)
          (render style receiver)))
        (arrayText args texts) texts
  | .foreign f => f.text style

def renderEach (style : NameStyle) : List Expr → List (Except Fault String)
  | [] => []
  | e :: rest => render style e :: renderEach style rest

end

/-- The encoding of a component in use: its token, a colon, the receiver and the arguments; array
operations have a letter of their own and only their arguments. -/
def useEncoding (component : Component) (receiver : Option (Except Fault String))
    (args : List (Except Fault String)) : Except Fault String :=
  match component.kind with
  | .arrayGet => do
      let array ← pick args 0
      let index ← pick args 1
      return "g" ++ array ++ index
  | .arraySet => do
      let array ← pick args 0
      let index ← pick args 1
      let value ← pick args 2
      return "s" ++ array ++ index ++ value
  | .arrayLength => do
      let array ← pick args 0
      return "l" ++ array
  | _ => do
      let receiver ← receiver.getD (.ok "")
      let args ← sequence args
      return "f" ++ component.token ++ ":" ++ receiver ++ concat args

mutual

/-- The canonical encoding. Constants are preceded by the length of their text, names are ended
by a semicolon. -/
def encode : Expr → Except Fault String
  | .literal value type => do
      let text ← literalText value type
      return "c" ++ toString text.length ++ ":" ++ text
  | .variable name _ => .ok ("v" ++ name ++ ";")
  | .unary op operand => do
      let operand ← encode operand
      return "o" ++ op.code ++ operand
  | .binary op left right => do
      let left ← encode left
      let right ← encode right
      return "o" ++ op.code ++ left ++ right
  | .use component none args => useEncoding component none (encodeEach args)
  | .use component (some receiver) args =>
      useEncoding component (some (encode receiver)) (encodeEach args)
  | .foreign f => f.encoding

def encodeEach : List Expr → List (Except Fault String)
  | [] => []
  | e :: rest => encode e :: encodeEach rest

end

end FragmentSynthesis.ExpressionText
