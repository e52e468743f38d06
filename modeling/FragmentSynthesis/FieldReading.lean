import FragmentSynthesis.Faults
import FragmentSynthesis.Values
import FragmentSynthesis.WholeNumberText

/-!
Reading the fields of settings, tasks and records out of plain data. A field takes values of its
own kind and a few more that can be read as such; what it refuses is reported with its place and
the reason, and all refused fields are reported together.
-/

namespace FragmentSynthesis.FieldReading

open FragmentSynthesis.Binary64
open FragmentSynthesis.Faults
open FragmentSynthesis.Values
open FragmentSynthesis.WholeNumberText

/-- What a document holds: values under names. -/
abbrev Fields := List (String × Value)

/-- The fields of a value; only a mapping has any. -/
def fieldsOf : Value → Except Fault Fields
  | .mapping fields => .ok fields
  | _ => .error .wrongShape

/-- The value under a name; the last one if there are several. -/
def valueOf? (fields : Fields) (name : String) : Option Value :=
  ((fields.reverse.find? fun entry => entry.1 == name)).map Prod.snd

/-- A text, and no other value. -/
def readText : Value → Except FieldProblem String
  | .text s => .ok s
  | _ => .error .stringType

/-- A text or nothing. -/
def readOptionalText : Value → Except FieldProblem (Option String)
  | .null => .ok none
  | .text s => .ok (some s)
  | _ => .error .stringType

/-- The whole number that a double is, if its magnitude is below `2 ^ 63`. -/
def smallWhole? (x : Double) : Option Int :=
  (integral? x).filter fun n => n.natAbs < power 2 63

/-- A whole number: as it is, a truth value as one or zero, a double without a fraction that is
not too large, or what a text reads as. -/
def readInt : Value → Except FieldProblem Int
  | .int n => .ok n
  | .bool b => .ok (if b then 1 else 0)
  | .float x =>
      if !isFinite x then .error .finiteNumber
      else if (integral? x).isNone then .error .intFromFloat
      else
        match smallWhole? x with
        | some n => .ok n
        | none => .error .intParsingSize
  | .text s =>
      match WholeNumberText.read s with
      | .ok n => .ok n
      | .error .tooLong => .error .intParsingSize
      | .error .malformed => .error .intParsing
  | _ => .error .intType

/-- A whole number that is not negative. -/
def readNat (v : Value) : Except FieldProblem Nat := do
  let n ← readInt v
  if n < 0 then .error .greaterThanEqual else .ok n.toNat

def falseWords : List String := ["0", "off", "f", "false", "n", "no"]

def trueWords : List String := ["1", "on", "t", "true", "y", "yes"]

/-- Zero or one as a truth value. -/
def boolOfInt (n : Int) : Except FieldProblem Bool :=
  if n = 0 then .ok false else if n = 1 then .ok true else .error .boolParsing

/-- A truth value: as it is, zero or one as a number, or a word for it in any case. Whole numbers
count as such from `-2 ^ 63` to `2 ^ 63 - 1`, as doubles only strictly between. -/
def readBool : Value → Except FieldProblem Bool
  | .bool b => .ok b
  | .int n =>
      if -(power 2 63 : Int) ≤ n ∧ n < (power 2 63 : Int) then boolOfInt n else .error .boolType
  | .float x =>
      match smallWhole? x with
      | some n => boolOfInt n
      | none => .error .boolType
  | .text s =>
      let word := String.ofList (s.toList.map Char.toLower)
      if word ∈ falseWords then .ok false
      else if word ∈ trueWords then .ok true
      else .error .boolParsing
  | _ => .error .boolType

/-- One of the values that a name stands for. -/
def readName {α : Type} (ofName? : String → Option α) : Value → Except FieldProblem α
  | .text s =>
      match ofName? s with
      | some a => .ok a
      | none => .error .enum
  | _ => .error .enum

/-- What is read, or all the faults that were found. -/
abbrev Reading (α : Type) := Except (List FieldFault) α

/-- The verdict on one value, with the place of the value if it is refused. -/
def atPlace {α : Type} (place : String) : Except FieldProblem α → Reading α
  | .ok a => .ok a
  | .error problem => .error [⟨place, problem⟩]

/-- Two readings of which both have to succeed; the faults of both are kept. -/
def both {α β : Type} : Reading α → Reading β → Reading (α × β)
  | .ok a, .ok b => .ok (a, b)
  | .ok _, .error fs => .error fs
  | .error fs, .ok _ => .error fs
  | .error fs, .error gs => .error (fs ++ gs)

/-- Reads the items of a list from an index on, all refused items being reported. -/
def readItems {α : Type} (place : String) (read : Value → Except FieldProblem α) :
    Nat → List Value → Reading (List α)
  | _, [] => .ok []
  | i, v :: rest =>
      (both (atPlace (place ++ "." ++ toString i) (read v)) (readItems place read (i + 1) rest)).map
        fun p => p.1 :: p.2

/-- A list, whose refused items are reported with their index. -/
def listField {α : Type} (fields : Fields) (name : String)
    (read : Value → Except FieldProblem α) : Reading (List α) :=
  match valueOf? fields name with
  | none => .ok []
  | some (.list items) => readItems name read 0 items
  | some _ => .error [⟨name, .listType⟩]

/-- A field that has to be there. -/
def requiredField {α : Type} (fields : Fields) (name : String)
    (read : Value → Except FieldProblem α) : Reading α :=
  match valueOf? fields name with
  | none => .error [⟨name, .missing⟩]
  | some v => atPlace name (read v)

/-- A field with a default, which is not checked. -/
def optionalField {α : Type} (fields : Fields) (name : String) (default : α)
    (read : Value → Except FieldProblem α) : Reading α :=
  match valueOf? fields name with
  | none => .ok default
  | some v => atPlace name (read v)

/-- A reading as part of a larger computation. -/
def Reading.check {α : Type} : Reading α → Except Fault α
  | .ok a => .ok a
  | .error faults => .error (.invalidFields faults)

/-- Where a document comes from: it is there with some content, or missing at a path. -/
inductive Document
  | content (v : Value)
  | absent (path : String)

/-- The content of a document; nothing at all counts as an empty mapping. -/
def Document.value (kind : DocumentKind) : Document → Except Fault Value
  | .absent path => .error (.missingDocument kind path)
  | .content v => .ok (if v.isBlank then .mapping [] else v)

/-- The fields of a document. -/
def Document.fields (kind : DocumentKind) (d : Document) : Except Fault Fields := do
  fieldsOf (← d.value kind)

end FragmentSynthesis.FieldReading
