import FragmentSynthesis.Binary64
import FragmentSynthesis.DecimalText
import FragmentSynthesis.QuotedText

namespace FragmentSynthesis.Values

open FragmentSynthesis.Binary64
open FragmentSynthesis.DecimalText
open FragmentSynthesis.QuotedText

/-- Plain data, as it is read from documents. -/
inductive Value
  | null
  | bool (b : Bool)
  | int (n : Int)
  | float (x : Double)
  | text (s : String)
  | list (items : List Value)
  | mapping (entries : List (String × Value))

mutual

/-- Equality of plain data, part by part. What is not a number is equal to itself. -/
def Value.beq : Value → Value → Bool
  | .null, .null => true
  | .bool a, .bool b => a == b
  | .int a, .int b => a == b
  | .float a, .float b => a == b
  | .text a, .text b => a == b
  | .list a, .list b => beqItems a b
  | .mapping a, .mapping b => beqEntries a b
  | _, _ => false

def beqItems : List Value → List Value → Bool
  | [], [] => true
  | v :: rest, w :: others => v.beq w && beqItems rest others
  | _, _ => false

def beqEntries : List (String × Value) → List (String × Value) → Bool
  | [], [] => true
  | (key, v) :: rest, (name, w) :: others => key == name && v.beq w && beqEntries rest others
  | _, _ => false

end

mutual

theorem Value.beq_iff (v w : Value) : v.beq w = true ↔ v = w := by
  cases v <;> cases w <;> simp [Value.beq, beqItems_iff, beqEntries_iff]

theorem beqItems_iff (v w : List Value) : beqItems v w = true ↔ v = w := by
  cases v <;> cases w <;> simp [beqItems, Value.beq_iff, beqItems_iff]

theorem beqEntries_iff (v w : List (String × Value)) : beqEntries v w = true ↔ v = w := by
  cases v <;> cases w <;>
    simp [beqEntries, Value.beq_iff, beqEntries_iff, Prod.ext_iff]

end

instance : DecidableEq Value := fun v w => decidable_of_iff _ (Value.beq_iff v w)

/-- A number as a whole one, if it is one, and a truth value as one or zero. -/
def wholeNumber? : Value → Option Int
  | .bool b => some (if b then 1 else 0)
  | .int n => some n
  | .float x => integral? x
  | _ => none

/-- Entries in the order of their names. -/
def sortEntries (entries : List (String × Value)) : List (String × Value) :=
  entries.mergeSort fun a b => decide (a.1 ≤ b.1)

mutual

/-- The form that values have in common when they count as equal: whole numbers and truth values
are numbers of one sort, and the order of a mapping means nothing. -/
def Value.normal : Value → Value
  | .list items => .list (normalItems items)
  | .mapping entries => .mapping (sortEntries (normalEntries entries))
  | v => ((wholeNumber? v).map Value.int).getD v

def normalItems : List Value → List Value
  | [] => []
  | v :: rest => v.normal :: normalItems rest

def normalEntries : List (String × Value) → List (String × Value)
  | [] => []
  | (key, v) :: rest => (key, v.normal) :: normalEntries rest

end

/-- Whether a document of this content counts as empty. -/
def Value.isBlank : Value → Bool
  | .null => true
  | .bool b => !b
  | .int n => n == 0
  | .float (.finite _ mantissa _) => mantissa == 0
  | .float _ => false
  | .text s => s.isEmpty
  | .list items => items.isEmpty
  | .mapping entries => entries.isEmpty

def boolName (b : Bool) : String :=
  if b then "True" else "False"

mutual

/-- A value written on one line, texts between quotes. -/
def Value.describe : Value → String
  | .null => "None"
  | .bool b => boolName b
  | .int n => toString n
  | .float x => shortest x
  | .text s => quoted s
  | .list items => "[" ++ ", ".intercalate (describeItems items) ++ "]"
  | .mapping entries => "\x7b" ++ ", ".intercalate (describeEntries entries) ++ "\x7d"

def describeItems : List Value → List String
  | [] => []
  | v :: rest => v.describe :: describeItems rest

def describeEntries : List (String × Value) → List String
  | [] => []
  | (key, v) :: rest => (quoted key ++ ": " ++ v.describe) :: describeEntries rest

end

/-- A value as the content of a text: a text as it is, all else as its description. -/
def Value.content : Value → String
  | .text s => s
  | v => v.describe

end FragmentSynthesis.Values
