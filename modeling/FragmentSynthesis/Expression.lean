import FragmentSynthesis.Components
import FragmentSynthesis.Operators
import FragmentSynthesis.Values

namespace FragmentSynthesis.Expression

open FragmentSynthesis.Components
open FragmentSynthesis.Faults
open FragmentSynthesis.Operators
open FragmentSynthesis.TypeName
open FragmentSynthesis.TypeRefs
open FragmentSynthesis.Values

/-- What stands in the place of an expression and is none that the analyses know. It is given by
what can be seen of it: the name of its class, whether it has the type and the precedence that
operands need, its source text and encoding, its weight where it stands alone, and whether it can
be copied. -/
structure Foreign where
  kindName : String
  isOperand : Bool
  text : NameStyle → Except Fault String
  encoding : Except Fault String
  weight : Except Fault Nat
  isCopyable : Bool

/-- A hole, which prints and encodes as a mark. -/
def Foreign.hole : Foreign where
  kindName := "Hole"
  isOperand := true
  text := fun _ => .ok "_"
  encoding := .ok "_"
  weight := .error (.unknownNode "Hole" .size)
  isCopyable := true

/-- What has nothing but a class: a plain text, or the absence of a node. -/
def Foreign.bare (kindName : String) : Foreign where
  kindName := kindName
  isOperand := false
  text := fun _ => .error .missingPart
  encoding := .error .missingPart
  weight := .error (.unknownNode kindName .size)
  isCopyable := false

/-- An expression. A component is used on a receiver or without one, and what other code put in the
place of an expression is foreign. -/
inductive Expr
  | literal (value : Value) (type : String)
  | variable (name type : String)
  | unary (op : UnaryOp) (operand : Expr)
  | binary (op : BinaryOp) (left right : Expr)
  | use (component : Component) (receiver : Option Expr) (args : List Expr)
  | foreign (f : Foreign)

/-- The name of the class of an expression, as faults report it. -/
def Expr.kindName : Expr → String
  | .literal .. => "Literal"
  | .variable .. => "Var"
  | .unary .. => "Op"
  | .binary .. => "Op"
  | .use .. => "Func"
  | .foreign f => f.kindName

/-- The type of an expression. Operators take theirs from the operands. -/
def Expr.type : Expr → TypeRef
  | .literal _ type => .named type
  | .variable _ type => .named type
  | .unary op operand => if op.isBoolean then .named boolean else operand.type
  | .binary op left right =>
      if op.isBoolean then .named boolean else left.type.promote right.type
  | .use component _ _ => component.returnType
  | .foreign _ => .named int

/-- The expression may stand as an operand. -/
def Expr.isOperand : Expr → Bool
  | .foreign f => f.isOperand
  | _ => true

/-- The type of a constant that is given without one. -/
def inferType : Value → Except Fault String
  | .null => .ok object
  | .bool _ => .ok boolean
  | .int _ => .ok int
  | .float _ => .ok "double"
  | .text _ => .ok string
  | v => .error (.untypedLiteral v.describe)

/-- A constant, whose type is inferred from its value if it is not given. -/
def literalOf (value : Value) (type : Option String) : Except Fault Expr := do
  let type ← match type with
    | some type => pure type
    | none => inferType value
  return .literal value type

/-- Applies an operator. A unary one takes no left operand, a binary one needs it; operands that
give the result its type have to have one. -/
def applyOperator (op : Operator) (left : Option Expr) (right : Expr) : Except Fault Expr :=
  match op, left with
  | .unary op, some _ => .error (.unexpectedOperand op.name)
  | .binary op, none => .error (.missingOperand op.name)
  | .unary op, none =>
      if op.isBoolean || right.isOperand then .ok (.unary op right) else .error .missingPart
  | .binary op, some left =>
      if op.isBoolean || (left.isOperand && right.isOperand) then .ok (.binary op left right)
      else .error .missingPart

/-- Uses a component, whose signature has to be resolved, with as many arguments as it takes. -/
def useComponent (component : Component) (receiver : Option Expr) (args : List Expr) :
    Except Fault Expr :=
  if !component.valid then do
    let component ← component.named
    .error (.notInstantiable component.describe)
  else if args.length ≠ component.argTypes.length then do
    let component ← component.named
    .error (.argumentCount component.describe component.argTypes.length args.length)
  else .ok (.use component receiver args)

mutual

/-- Whether an expression has no foreign part. -/
def Expr.isKnown : Expr → Bool
  | .literal .. => true
  | .variable .. => true
  | .unary _ operand => operand.isKnown
  | .binary _ left right => left.isKnown && right.isKnown
  | .use _ none args => argsKnown args
  | .use _ (some receiver) args => receiver.isKnown && argsKnown args
  | .foreign _ => false

def argsKnown : List Expr → Bool
  | [] => true
  | e :: rest => e.isKnown && argsKnown rest

end

mutual

/-- Whether an expression can be copied, which what is foreign in it may prevent. -/
def Expr.isCopyable : Expr → Bool
  | .literal .. => true
  | .variable .. => true
  | .unary _ operand => operand.isCopyable
  | .binary _ left right => left.isCopyable && right.isCopyable
  | .use _ none args => argsCopyable args
  | .use _ (some receiver) args => receiver.isCopyable && argsCopyable args
  | .foreign f => f.isCopyable

def argsCopyable : List Expr → Bool
  | [] => true
  | e :: rest => e.isCopyable && argsCopyable rest

end

end FragmentSynthesis.Expression
