import FragmentSynthesis.Faults
import FragmentSynthesis.WordCharacter

namespace FragmentSynthesis.TypeName

open FragmentSynthesis.Faults
open FragmentSynthesis.WordCharacter

def void : String := "void"
def object : String := "java.lang.Object"
def string : String := "java.lang.String"
def boolean : String := "boolean"
def int : String := "int"

/-- A character that can begin a segment of a qualifier. -/
def isSegmentStart (c : Char) : Bool :=
  c.isAlpha || c == '_' || c == '$'

/-- A character that can stand further inside a segment of a qualifier. -/
def isSegmentChar (c : Char) : Bool :=
  isWord c || c == '$'

theorem isSegmentChar_dot : isSegmentChar '.' = false := by decide

/-- Drops every segment that is followed by a dot, together with the dot. The pending characters
are those of the segment read last, in reverse. -/
def dropQualifiersFrom (pending : List Char) : List Char → List Char
  | [] => pending.reverse
  | c :: cs =>
      if pending.isEmpty then
        if isSegmentStart c then dropQualifiersFrom [c] cs else c :: dropQualifiersFrom [] cs
      else if isSegmentChar c then dropQualifiersFrom (c :: pending) cs
      else if c = '.' then dropQualifiersFrom [] cs
      else pending.reverse ++ c :: dropQualifiersFrom [] cs

/-- A type name without qualifiers, also inside its type arguments. -/
def simpleName (type : String) : String :=
  String.ofList (dropQualifiersFrom [] type.toList)

/-- The simple form of a type name that may be missing. -/
def simpleName? : Option String → String
  | none => "null"
  | some type => simpleName type

/-- What stands behind the last occurrence of a character. -/
def afterLast (stop : Char) : List Char → Option (List Char)
  | [] => none
  | c :: cs =>
      match afterLast stop cs with
      | some rest => some rest
      | none => if c = stop then some cs else none

/-- A line without the part from its first opening to its last closing angle bracket. -/
def eraseLine (line : List Char) : List Char :=
  match afterLast '>' (line.dropWhile (· != '<')) with
  | some rest => line.takeWhile (· != '<') ++ rest
  | none => line

/-- The lines of a text, at least one. -/
def splitLines : List Char → List (List Char)
  | [] => [[]]
  | c :: cs =>
      if c = '\n' then [] :: splitLines cs
      else
        match splitLines cs with
        | [] => [[c]]
        | line :: lines => (c :: line) :: lines

/-- Lines with breaks between them. -/
def joinLines : List (List Char) → List Char
  | [] => []
  | [line] => line
  | line :: lines => line ++ '\n' :: joinLines lines

/-- A type name without its type arguments. -/
def erasure (type : String) : String :=
  String.ofList (joinLines ((splitLines type.toList).map eraseLine))

/-- The type ends in brackets. -/
def isArray (type : String) : Bool :=
  ['[', ']'].isSuffixOf type.toList

/-- A name without its last two characters. -/
def dropBrackets (type : String) : String :=
  String.ofList (type.toList.take (type.length - 2))

/-- The type of the elements of an array. -/
def element (type : String) : Except Fault String :=
  if isArray type then .ok (dropBrackets type) else .error (.notArrayType type)

/-- The source text of the value a variable of a type starts with. -/
def defaultValue (type : String) : String :=
  if type = "byte" ∨ type = "short" ∨ type = "int" then "0"
  else if type = "long" then "0L"
  else if type = "float" then "0.0f"
  else if type = "double" then "0.0"
  else if type = "char" then "'\\0'"
  else if type = "boolean" then "false"
  else "null"

/-- Whether names are shown in full or without qualifiers. -/
inductive NameStyle
  | qualified
  | simple
  deriving DecidableEq

/-- A type name in a style. -/
def styled : NameStyle → String → String
  | .qualified, type => type
  | .simple, type => simpleName type

/-- The name of a generic type with its one argument, if it has one. -/
def parameterized (style : NameStyle) (type : String) : Option String → String
  | none => styled style type
  | some parameter => styled style type ++ "<" ++ styled style parameter ++ ">"

/-- A character that may stand in a name with qualifiers. -/
def isTokenChar (c : Char) : Bool :=
  isWord c || c == '$' || c == '.'

/-- The longest runs of name characters. -/
def tokensFrom (current : List Char) : List Char → List String
  | [] => if current.isEmpty then [] else [String.ofList current.reverse]
  | c :: cs =>
      if isTokenChar c then tokensFrom (c :: current) cs
      else if current.isEmpty then tokensFrom [] cs
      else String.ofList current.reverse :: tokensFrom [] cs

/-- The names in a type, each as long as it goes. -/
def tokens (type : String) : List String :=
  tokensFrom [] type.toList

/-- Numeric types from the narrowest to the widest. -/
def numericOrder : List String :=
  ["byte", "short", "char", "int", "long", "float", "double"]

/-- The type of a binary operation: text if either side is, the wider of two numeric types, and
else that of the right side. -/
def promote (left right : String) : String :=
  if left = string ∨ right = string then string
  else if left ∈ numericOrder ∧ right ∈ numericOrder then
    if numericOrder.idxOf left < numericOrder.idxOf right then right else left
  else right

end FragmentSynthesis.TypeName
