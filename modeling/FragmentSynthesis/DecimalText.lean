import FragmentSynthesis.Binary64

namespace FragmentSynthesis.DecimalText

open FragmentSynthesis.Binary64

def decimalLength (n : Nat) : Nat :=
  (Nat.toDigits 10 n).length

/-- The largest `k` with `10 ^ k ≤ numerator / denominator`, for positive arguments. -/
def decimalOrder (numerator denominator : Nat) : Int :=
  let k := (decimalLength numerator : Int) - decimalLength denominator
  if denominator * power 10 k ≤ numerator * power 10 (-k) then k else k - 1

/-- The positive numbers that round to a double, as numerators over one denominator. Four times
the mantissa stands for the double itself; the lower end is half as far away where the power of
two changes. The ends belong to the interval when the mantissa is even. -/
structure RoundingInterval where
  lower : Nat
  centre : Nat
  upper : Nat
  denominator : Nat
  closed : Bool

/-- The numbers that round to a double, as fractions over one denominator. Below a power of two the
doubles lie twice as close. -/
def roundingInterval (mantissa : Nat) (exponent : Int) : RoundingInterval :=
  let below := if mantissa = power 2 52 ∧ -1074 < exponent then 1 else 2
  let up := power 2 exponent
  { lower := (4 * mantissa - below) * up
    centre := 4 * mantissa * up
    upper := (4 * mantissa + 2) * up
    denominator := 4 * power 2 (-exponent)
    closed := mantissa % 2 = 0 }

/-- Whether `n * 10 ^ place` lies in the interval. -/
def RoundingInterval.holds (i : RoundingInterval) (n : Nat) (place : Int) : Bool :=
  let x := n * power 10 place * i.denominator
  let down := power 10 (-place)
  if i.closed then decide (i.lower * down ≤ x ∧ x ≤ i.upper * down)
  else decide (i.lower * down < x ∧ x < i.upper * down)

/-- The multiple of `10 ^ place` in the interval that is nearest to its centre, if one of the two
neighbours of the centre lies in it; of two that are equally near, the even one. -/
def RoundingInterval.nearest? (i : RoundingInterval) (place : Int) : Option Nat :=
  let numerator := i.centre * power 10 (-place)
  let denominator := i.denominator * power 10 place
  let low := numerator / denominator
  let rounded := roundDiv numerator denominator
  if i.holds rounded place then some rounded
  else if i.holds low place then some low
  else if i.holds (low + 1) place then some (low + 1)
  else none

/-- The shortest decimal in the interval, as digits and the power of ten of the last one,
trying one more digit at a time. -/
def RoundingInterval.shortest (i : RoundingInterval) (order : Int) : Nat → Int → Nat × Int
  | 0, place => (i.centre * power 10 (-place) / (i.denominator * power 10 place), place)
  | steps + 1, place =>
      match i.nearest? place with
      | some n => (n, place)
      | none => i.shortest order steps (place - 1)

/-- Leaves out the zeros at the end. -/
def trimZeros (ds : List Char) : List Char :=
  (ds.reverse.dropWhile (· == '0')).reverse

def zeros (n : Nat) : String :=
  String.ofList (List.replicate n '0')

/-- Digits with the point after the first and an exponent of at least two digits. -/
def exponential (ds : List Char) (order : Int) : String :=
  let exponent := toString order.natAbs
  let fraction := ds.drop 1
  String.ofList (ds.take 1) ++ (if fraction.isEmpty then "" else "." ++ String.ofList fraction)
    ++ (if order < 0 then "e-" else "e+")
    ++ (if exponent.length < 2 then "0" ++ exponent else exponent)

/-- Digits with the point at its place and at least one digit on each side of it. -/
def positional (ds : List Char) (order : Int) : String :=
  if order < 0 then "0." ++ zeros (-order - 1).toNat ++ String.ofList ds
  else
    let whole := order.toNat + 1
    let fraction := ds.drop whole
    String.ofList (ds.take whole) ++ zeros (whole - ds.length) ++ "."
      ++ (if fraction.isEmpty then "0" else String.ofList fraction)

def withSign (negative : Bool) (text : String) : String :=
  if negative then "-" ++ text else text

/-- The shortest text that reads back as the same double. Positions are written out for powers of
ten from `-4` to `15`. -/
def shortest : Double → String
  | .nan => "nan"
  | .infinite negative => withSign negative "inf"
  | .finite negative mantissa exponent =>
      if mantissa = 0 then withSign negative "0.0"
      else
        let i := roundingInterval mantissa exponent
        let order := decimalOrder i.centre i.denominator
        let (n, place) := i.shortest order 17 order
        let ds := Nat.toDigits 10 n
        let order := place + ds.length - 1
        let ds := trimZeros ds
        withSign negative
          (if -4 ≤ order ∧ order < 16 then positional ds order else exponential ds order)

/-- A number with a fixed number of decimal places, at least one digit before the point. -/
def placed (n places : Nat) : String :=
  let ds := Nat.toDigits 10 n
  let ds := List.replicate (places + 1 - ds.length) '0' ++ ds
  let whole := ds.length - places
  String.ofList (ds.take whole) ++ "." ++ String.ofList (ds.drop whole)

/-- The exact value rounded to a fixed number of places, a half to the even digit. -/
def fixed (places : Nat) : Double → String
  | .nan => "nan"
  | .infinite negative => withSign negative "inf"
  | .finite negative mantissa exponent =>
      let (numerator, denominator) := scaled mantissa exponent
      withSign negative (placed (roundDiv (numerator * power 10 places) denominator) places)

/-- Text moved to the right end of a field. -/
def padLeft (width : Nat) (text : String) : String :=
  String.ofList (List.replicate (width - text.length) ' ') ++ text

/-- The double nearest to `n * 10 ^ place`. Powers far outside the range of doubles are decided
without computing them. -/
def ofDecimal (negative : Bool) (n : Nat) (place : Int) : Double :=
  if n = 0 then zero negative
  else if 400 < decimalLength n + place then .infinite negative
  else if decimalLength n + place < -400 then zero negative
  else ofRatio negative (n * power 10 place) (power 10 (-place))

def digitsValue (ds : List Char) : Nat :=
  ds.foldl (fun n c => 10 * n + (c.toNat - 48)) 0

/-- Splits a leading sign off. -/
def readSign : List Char → Bool × List Char
  | '-' :: rest => (true, rest)
  | '+' :: rest => (false, rest)
  | rest => (false, rest)

/-- Reads an exponent, which may be missing and may have a sign. -/
def readExponent : List Char → Option Int
  | [] => some 0
  | c :: rest =>
      if c = 'e' ∨ c = 'E' then
        let (negative, ds) := readSign rest
        if ds.isEmpty || !ds.all Char.isDigit then none
        else some (if negative then -(digitsValue ds : Int) else digitsValue ds)
      else none

/-- Reads `inf`, `nan`, or digits with an optional point and exponent, after an optional sign. -/
def read? (text : String) : Option Double :=
  let (negative, body) := readSign text.toList
  match String.ofList (body.map Char.toLower) with
  | "inf" | "infinity" => some (.infinite negative)
  | "nan" => some .nan
  | _ =>
      let whole := body.takeWhile Char.isDigit
      let rest := body.dropWhile Char.isDigit
      let (fraction, rest) :=
        match rest with
        | '.' :: rest => (rest.takeWhile Char.isDigit, rest.dropWhile Char.isDigit)
        | rest => ([], rest)
      if whole.isEmpty && fraction.isEmpty then none
      else
        (readExponent rest).map fun exponent =>
          ofDecimal negative (digitsValue (whole ++ fraction)) (exponent - fraction.length)

end FragmentSynthesis.DecimalText
