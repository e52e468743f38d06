namespace FragmentSynthesis.Operators

/-- How an expression binds, from a lone atom to an assignment. -/
inductive Precedence
  | atom
  | dot
  | new
  | unary
  | multiplicative
  | additive
  | relational
  | equality
  | bitAnd
  | bitXor
  | bitOr
  | logicalAnd
  | logicalOr
  | assignment
  deriving DecidableEq

/-- A higher level binds tighter. -/
def Precedence.level : Precedence → Nat
  | .atom => 17
  | .dot => 16
  | .new => 16
  | .unary => 14
  | .multiplicative => 13
  | .additive => 12
  | .relational => 10
  | .equality => 9
  | .bitAnd => 8
  | .bitXor => 7
  | .bitOr => 6
  | .logicalAnd => 5
  | .logicalOr => 4
  | .assignment => 2

/-- The operators of the level group to the right. -/
def Precedence.rightAssociative : Precedence → Bool
  | .unary => true
  | .assignment => true
  | _ => false

/-- The name of a level, as other code asks for it. -/
def Precedence.name : Precedence → String
  | .atom => "ATOM"
  | .dot => "DOT"
  | .new => "NEW"
  | .unary => "UNARY"
  | .multiplicative => "MULTIPLICATIVE"
  | .additive => "ADDITIVE"
  | .relational => "RELATIONAL"
  | .equality => "EQUALITY"
  | .bitAnd => "BIT_AND"
  | .bitXor => "BIT_XOR"
  | .bitOr => "BIT_OR"
  | .logicalAnd => "LOGICAL_AND"
  | .logicalOr => "LOGICAL_OR"
  | .assignment => "ASSIGNMENT"

def Precedence.all : List Precedence :=
  [.atom, .dot, .new, .unary, .multiplicative, .additive, .relational, .equality, .bitAnd,
    .bitXor, .bitOr, .logicalAnd, .logicalOr, .assignment]

def Precedence.ofName? (name : String) : Option Precedence :=
  Precedence.all.find? (·.name == name)

/-- Whether a child in the leftmost place needs parentheses. -/
def Precedence.parenLeft (p child : Precedence) : Bool :=
  if p.rightAssociative then decide (child.level ≤ p.level) else decide (child.level < p.level)

/-- Whether a child in the rightmost place needs parentheses. -/
def Precedence.parenRight (p child : Precedence) : Bool :=
  if p.rightAssociative then decide (child.level < p.level) else decide (child.level ≤ p.level)

/-- The operators with one operand. -/
inductive UnaryOp
  | not
  | neg
  deriving DecidableEq

/-- The operators with two operands. -/
inductive BinaryOp
  | mult
  | div
  | mod
  | add
  | sub
  | lt
  | lte
  | gt
  | gte
  | eq
  | notEq
  | bitAnd
  | bitXor
  | bitOr
  | and
  | or
  deriving DecidableEq

def UnaryOp.name : UnaryOp → String
  | .not => "NOT"
  | .neg => "NEG"

/-- The operator as it stands in source text. -/
def UnaryOp.symbol : UnaryOp → String
  | .not => "!"
  | .neg => "-"

/-- The one character that stands for an operator in encodings. -/
def UnaryOp.code : UnaryOp → String
  | .not => "!"
  | .neg => "n"

/-- Whether the result is a truth value whatever the operands are. -/
def UnaryOp.isBoolean : UnaryOp → Bool
  | .not => true
  | .neg => false

def BinaryOp.name : BinaryOp → String
  | .mult => "MULT"
  | .div => "DIV"
  | .mod => "MOD"
  | .add => "ADD"
  | .sub => "SUB"
  | .lt => "LT"
  | .lte => "LTE"
  | .gt => "GT"
  | .gte => "GTE"
  | .eq => "EQ"
  | .notEq => "NOTEQ"
  | .bitAnd => "BIT_AND"
  | .bitXor => "BIT_XOR"
  | .bitOr => "BIT_OR"
  | .and => "AND"
  | .or => "OR"

/-- The operator as it stands in source text. -/
def BinaryOp.symbol : BinaryOp → String
  | .mult => "*"
  | .div => "/"
  | .mod => "%"
  | .add => "+"
  | .sub => "-"
  | .lt => "<"
  | .lte => "<="
  | .gt => ">"
  | .gte => ">="
  | .eq => "=="
  | .notEq => "!="
  | .bitAnd => "&"
  | .bitXor => "^"
  | .bitOr => "|"
  | .and => "&&"
  | .or => "||"

/-- The one character that stands for an operator in encodings. -/
def BinaryOp.code : BinaryOp → String
  | .mult => "*"
  | .div => "/"
  | .mod => "%"
  | .add => "+"
  | .sub => "-"
  | .lt => "<"
  | .lte => "l"
  | .gt => ">"
  | .gte => "g"
  | .eq => "="
  | .notEq => "#"
  | .bitAnd => "&"
  | .bitXor => "^"
  | .bitOr => "|"
  | .and => "a"
  | .or => "o"

/-- The level on which an operator binds. -/
def BinaryOp.precedence : BinaryOp → Precedence
  | .mult | .div | .mod => .multiplicative
  | .add | .sub => .additive
  | .lt | .lte | .gt | .gte => .relational
  | .eq | .notEq => .equality
  | .bitAnd => .bitAnd
  | .bitXor => .bitXor
  | .bitOr => .bitOr
  | .and => .logicalAnd
  | .or => .logicalOr

/-- Whether the result is a truth value whatever the operands are. -/
def BinaryOp.isBoolean : BinaryOp → Bool
  | .lt | .lte | .gt | .gte | .eq | .notEq | .and | .or => true
  | _ => false

/-- An operator of either arity. -/
inductive Operator
  | unary (op : UnaryOp)
  | binary (op : BinaryOp)
  deriving DecidableEq

def Operator.name : Operator → String
  | .unary op => op.name
  | .binary op => op.name

def Operator.symbol : Operator → String
  | .unary op => op.symbol
  | .binary op => op.symbol

/-- The operator as it stands in encodings. -/
def Operator.code : Operator → String
  | .unary op => op.code
  | .binary op => op.code

/-- The level on which an operator binds, one for all with one operand. -/
def Operator.precedence : Operator → Precedence
  | .unary _ => .unary
  | .binary op => op.precedence

def Operator.isUnary : Operator → Bool
  | .unary _ => true
  | .binary _ => false

/-- The operator gives a truth value. -/
def Operator.isBoolean : Operator → Bool
  | .unary op => op.isBoolean
  | .binary op => op.isBoolean

def Operator.all : List Operator :=
  [.unary .not, .unary .neg, .binary .mult, .binary .div, .binary .mod, .binary .add,
    .binary .sub, .binary .lt, .binary .lte, .binary .gt, .binary .gte, .binary .eq,
    .binary .notEq, .binary .bitAnd, .binary .bitXor, .binary .bitOr, .binary .and,
    .binary .or]

theorem Operator.mem_all (op : Operator) : op ∈ Operator.all := by
  cases op with
  | unary op => cases op <;> decide
  | binary op => cases op <;> decide

def Operator.ofName? (name : String) : Option Operator :=
  Operator.all.find? (·.name == name)

end FragmentSynthesis.Operators
