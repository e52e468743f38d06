import FragmentSynthesis.Blank
import FragmentSynthesis.DecimalText

namespace FragmentSynthesis.WholeNumberText

open FragmentSynthesis.Blank
open FragmentSynthesis.DecimalText

/-- Why a text is read as no number: it is written in no way that is known, or is too long. -/
inductive Refusal
  | malformed
  | tooLong
  deriving DecidableEq

/-- How many digits there may be. -/
def lengthLimit : Nat := 4300

/-- Digits of which the first is zero only if it is the only one. They count as too long whatever
stands behind them. -/
def readDigits (cs : List Char) : Except Refusal Nat :=
  if cs = ['0'] then .ok 0
  else if cs.head? = some '0' then .error .malformed
  else
    let digits := cs.takeWhile Char.isDigit
    if lengthLimit < digits.length then .error .tooLong
    else if digits.isEmpty || digits.length != cs.length then .error .malformed
    else .ok (digitsValue digits)

/-- A number that is written plainly. -/
def readPlain : List Char → Except Refusal Int
  | '-' :: cs => (readDigits cs).map fun n => -(n : Int)
  | cs => (readDigits cs).map fun n => (n : Int)

/-- A character that can begin a plain number other than zero. -/
def beginsNumber (c : Char) : Bool :=
  c == '-' || (c.isDigit && c != '0')

/-- Skips zeros and underscores behind a zero. The character read last stays if there is nothing
but these, or a point follows. -/
def skipZeros (last : Char) : List Char → Option (List Char)
  | [] => some [last]
  | c :: cs =>
      if c = '0' ∨ c = '_' then skipZeros c cs
      else if beginsNumber c then some (c :: cs)
      else if c = '.' then some (last :: c :: cs)
      else none

/-- Leaves out the zeros in front of a number. -/
def dropLeadingZeros : List Char → Option (List Char)
  | [] => none
  | c :: cs =>
      if c = '0' then skipZeros c cs
      else if beginsNumber c then some (c :: cs)
      else none

/-- Characters without the first point and what follows it, if these are zeros, at least one. -/
def dropZeroFraction (cs : List Char) : List Char :=
  let fraction := (cs.dropWhile (· != '.')).drop 1
  if !fraction.isEmpty && fraction.all (· == '0') then cs.takeWhile (· != '.') else cs

/-- Whether each underscore stands between two other characters, given whether it may stand at the
beginning. -/
def isGrouped (allowed : Bool) : List Char → Bool
  | [] => allowed
  | c :: cs => if c = '_' then allowed && isGrouped false cs else isGrouped true cs

/-- Leaves out the underscores if each of them stands between two other characters. -/
def dropUnderscores (cs : List Char) : List Char :=
  if isGrouped false cs then cs.filter (· != '_') else cs

/-- What is left of a number without its sign, its leading zeros, a fraction of zeros and its
underscores. -/
def cleanUnsigned (cs : List Char) : Option (List Char) :=
  (dropLeadingZeros cs).map fun cs => dropUnderscores (dropZeroFraction cs)

/-- A freely written number as a plain one. A plus sign is dropped unless a minus sign follows. -/
def clean : List Char → Option (List Char)
  | '+' :: '-' :: _ => none
  | '+' :: cs => cleanUnsigned cs
  | '-' :: cs => (cleanUnsigned cs).map fun cs => '-' :: cs
  | cs => cleanUnsigned cs

/-- A freely written number. What is too long is no such number. -/
def readFree (text : String) : Except Refusal Int :=
  match (clean (trimWhiteSpace text).toList).map readPlain with
  | some (.ok n) => .ok n
  | _ => .error .malformed

/-- A number written plainly or else freely. -/
def read (text : String) : Except Refusal Int :=
  match readPlain text.toList with
  | .error .malformed => readFree text
  | result => result

end FragmentSynthesis.WholeNumberText
