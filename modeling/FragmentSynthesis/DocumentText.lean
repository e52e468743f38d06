import FragmentSynthesis.DecimalText
import FragmentSynthesis.Values

namespace FragmentSynthesis.DocumentText

open FragmentSynthesis.Binary64
open FragmentSynthesis.DecimalText
open FragmentSynthesis.QuotedText
open FragmentSynthesis.Values

/-- A character as it stands in quoted text. Control characters are escaped. -/
def writeChar (c : Char) : List Char :=
  if c = '"' ∨ c = '\\' then ['\\', c]
  else if c = '\n' then ['\\', 'n']
  else if c = '\r' then ['\\', 'r']
  else if c = '\t' then ['\\', 't']
  else if c.toNat < 32 then '\\' :: 'u' :: hexDigits 4 c.toNat
  else [c]

/-- A text in double quotes. -/
def writeText (s : String) : String :=
  String.ofList ('"' :: s.toList.flatMap writeChar ++ ['"'])

/-- A double as a bare number. Those that are no finite numbers have words of their own. -/
def writeDouble : Double → String
  | .nan => "NaN"
  | .infinite negative => if negative then "-Infinity" else "Infinity"
  | x => shortest x

mutual

/-- A value as text, with one blank behind each comma and colon. -/
def write : Value → String
  | .null => "null"
  | .bool b => if b then "true" else "false"
  | .int n => toString n
  | .float x => writeDouble x
  | .text s => writeText s
  | .list items => "[" ++ ", ".intercalate (writeItems items) ++ "]"
  | .mapping entries => "\x7b" ++ ", ".intercalate (writeEntries entries) ++ "\x7d"

def writeItems : List Value → List String
  | [] => []
  | v :: rest => write v :: writeItems rest

def writeEntries : List (String × Value) → List String
  | [] => []
  | (key, v) :: rest => (writeText key ++ ": " ++ write v) :: writeEntries rest

end

def isSpace (c : Char) : Bool :=
  c == ' ' || c == '\n' || c == '\r' || c == '\t'

def skipSpace (cs : List Char) : List Char :=
  cs.dropWhile isSpace

/-- The value of a hexadecimal digit of either case. -/
def hexDigit? (c : Char) : Option Nat :=
  if c.isDigit then some (c.toNat - 48)
  else if 'a' ≤ c ∧ c ≤ 'f' then some (c.toNat - 87)
  else if 'A' ≤ c ∧ c ≤ 'F' then some (c.toNat - 55)
  else none

/-- Reads four hexadecimal digits and gives what is left. -/
def readUnit : List Char → Option (Nat × List Char)
  | a :: b :: c :: d :: rest => do
      let a ← hexDigit? a
      let b ← hexDigit? b
      let c ← hexDigit? c
      let d ← hexDigit? d
      return (((a * 16 + b) * 16 + c) * 16 + d, rest)
  | _ => none

/-- The character of a unit, or of two where a pair of units stands for one. A unit that is only
half of a pair is replaced. -/
def readUnits (cs : List Char) : Option (Char × List Char) := do
  let (high, rest) ← readUnit cs
  if 0xD800 ≤ high ∧ high < 0xDC00 then
    match rest with
    | '\\' :: 'u' :: more =>
        let (low, rest') ← readUnit more
        if 0xDC00 ≤ low ∧ low < 0xE000 then
          return (Char.ofNat (0x10000 + (high - 0xD800) * 0x400 + (low - 0xDC00)), rest')
        else return ('\ufffd', rest)
    | _ => return ('\ufffd', rest)
  else if 0xDC00 ≤ high ∧ high < 0xE000 then return ('\ufffd', rest)
  else return (Char.ofNat high, rest)

/-- Reads the rest of a text up to its closing quote, at most as many characters as given. -/
def readText : Nat → List Char → List Char → Option (String × List Char)
  | 0, _, _ => none
  | _, _, [] => none
  | fuel + 1, done, c :: cs =>
      if c = '"' then some (String.ofList done.reverse, cs)
      else if c = '\\' then
        match cs with
        | 'n' :: rest => readText fuel ('\n' :: done) rest
        | 't' :: rest => readText fuel ('\t' :: done) rest
        | 'r' :: rest => readText fuel ('\r' :: done) rest
        | 'b' :: rest => readText fuel ('\x08' :: done) rest
        | 'f' :: rest => readText fuel ('\x0c' :: done) rest
        | 'u' :: rest =>
            match readUnits rest with
            | some (c, rest) => readText fuel (c :: done) rest
            | none => none
        | c :: rest =>
            if c = '"' ∨ c = '\\' ∨ c = '/' then readText fuel (c :: done) rest else none
        | [] => none
      else readText fuel (c :: done) cs

/-- A character that may stand in a number. -/
def isNumberChar (c : Char) : Bool :=
  c.isDigit || c == '-' || c == '+' || c == '.' || c == 'e' || c == 'E'

/-- A number without a point or exponent is whole. -/
def numberOf (cs : List Char) : Option Value :=
  let (negative, digits) := readSign cs
  if digits.all Char.isDigit && !digits.isEmpty then
    let n : Int := digitsValue digits
    some (.int (if negative then -n else n))
  else (read? (String.ofList cs)).map Value.float

/-- Reads a given word as a value. -/
def readWord (word : List Char) (v : Value) (cs : List Char) : Option (Value × List Char) :=
  if word.isPrefixOf cs then some (v, cs.drop word.length) else none

mutual

/-- Reads a value that begins at the first character. -/
def readValue : Nat → List Char → Option (Value × List Char)
  | 0, _ => none
  | fuel + 1, cs =>
      match skipSpace cs with
      | '"' :: rest => (readText rest.length.succ [] rest).map fun (s, rest) => (.text s, rest)
      | '[' :: rest =>
          match skipSpace rest with
          | ']' :: rest => some (.list [], rest)
          | rest => (readItems fuel rest).map fun (items, rest) => (.list items, rest)
      | '\x7b' :: rest =>
          match skipSpace rest with
          | '\x7d' :: rest => some (.mapping [], rest)
          | rest => (readEntries fuel rest).map fun (entries, rest) => (.mapping entries, rest)
      | 'n' :: rest => readWord ['u', 'l', 'l'] .null rest
      | 't' :: rest => readWord ['r', 'u', 'e'] (.bool true) rest
      | 'f' :: rest => readWord ['a', 'l', 's', 'e'] (.bool false) rest
      | cs =>
          (numberOf (cs.takeWhile isNumberChar)).map fun v => (v, cs.dropWhile isNumberChar)

/-- Reads the items of a list up to its closing bracket. -/
def readItems : Nat → List Char → Option (List Value × List Char)
  | 0, _ => none
  | fuel + 1, cs => do
      let (v, rest) ← readValue fuel cs
      match skipSpace rest with
      | ',' :: rest => do
          let (items, rest) ← readItems fuel rest
          return (v :: items, rest)
      | ']' :: rest => return ([v], rest)
      | _ => none

/-- Reads the entries of a mapping up to its closing brace. -/
def readEntries : Nat → List Char → Option (List (String × Value) × List Char)
  | 0, _ => none
  | fuel + 1, cs =>
      match skipSpace cs with
      | '"' :: rest => do
          let (key, rest) ← readText rest.length.succ [] rest
          match skipSpace rest with
          | ':' :: rest => do
              let (v, rest) ← readValue fuel rest
              match skipSpace rest with
              | ',' :: rest => do
                  let (entries, rest) ← readEntries fuel rest
                  return ((key, v) :: entries, rest)
              | '\x7d' :: rest => return ([(key, v)], rest)
              | _ => none
          | _ => none
      | _ => none

end

/-- The value that a text describes, if it describes exactly one. -/
def read (text : String) : Option Value :=
  let cs := text.toList
  match readValue (cs.length + 1) cs with
  | some (v, rest) => if (skipSpace rest).isEmpty then some v else none
  | none => none

end FragmentSynthesis.DocumentText
