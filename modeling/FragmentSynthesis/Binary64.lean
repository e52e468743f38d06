/-!
Double-precision numbers as exact values. A finite number is a sign, a mantissa below `2 ^ 53`
and a power of two no smaller than `2 ^ (-1074)`. Every operation takes the exact result and
rounds it to the nearest such number, a half going to the even mantissa.
-/

namespace FragmentSynthesis.Binary64

/-- A double: not a number, infinite, or a sign with a whole mantissa and a power of two. -/
inductive Double
  | nan
  | infinite (negative : Bool)
  | finite (negative : Bool) (mantissa : Nat) (exponent : Int)
  deriving DecidableEq

/-- A power; a negative exponent counts as zero, so `power b k` and `power b (-k)` are the two
sides of a fraction equal to the `k`-th power of `b`. -/
def power (base : Nat) (exponent : Int) : Nat :=
  base.pow exponent.toNat

/-- The quotient of two numbers, rounded to the nearest; a half goes to the even neighbour. -/
def roundDiv (numerator denominator : Nat) : Nat :=
  let quotient := numerator / denominator
  let rest := 2 * (numerator % denominator)
  if rest < denominator ∨ (rest = denominator ∧ quotient % 2 = 0) then quotient
  else quotient + 1

/-- A number times a power of two, as a fraction. -/
def scaled (n : Nat) (exponent : Int) : Nat × Nat :=
  (n * power 2 exponent, power 2 (-exponent))

/-- The largest `k` with `2 ^ k ≤ numerator / denominator`, for positive arguments. -/
def binaryOrder (numerator denominator : Nat) : Int :=
  let k := (numerator.log2 : Int) - denominator.log2
  if denominator * power 2 k ≤ numerator * power 2 (-k) then k else k - 1

/-- Zero of either sign, at the smallest exponent. -/
def zero (negative : Bool) : Double :=
  .finite negative 0 (-1074)

/-- The quotient of two whole numbers, rounded to 53 bits of mantissa or to the smallest exponent. A
quotient past the largest double is infinite. -/
def ofRatio (negative : Bool) (numerator denominator : Nat) : Double :=
  if numerator = 0 then zero negative
  else
    let exponent := max (binaryOrder numerator denominator - 52) (-1074)
    let mantissa := roundDiv (numerator * power 2 (-exponent)) (denominator * power 2 exponent)
    -- Rounding up can carry into one bit more than a mantissa has.
    let carried := mantissa = power 2 53
    let exponent := if carried then exponent + 1 else exponent
    if 971 < exponent then .infinite negative
    else .finite negative (if carried then power 2 52 else mantissa) exponent

def isFinite : Double → Bool
  | .finite .. => true
  | _ => false

/-- A whole number as a double; none when it rounds past the largest finite one. -/
def ofInt? (n : Int) : Option Double :=
  let x := ofRatio (decide (n < 0)) n.natAbs 1
  if isFinite x then some x else none

/-- A whole number as a double, infinite when it is too large. -/
def ofInt (n : Int) : Double :=
  ofRatio (decide (n < 0)) n.natAbs 1

def negate : Double → Double
  | .nan => .nan
  | .infinite negative => .infinite (!negative)
  | .finite negative mantissa exponent => .finite (!negative) mantissa exponent

/-- A signed multiple of `2 ^ unit`, for a unit no larger than the exponent. -/
def inUnits (negative : Bool) (mantissa : Nat) (exponent unit : Int) : Int :=
  let n : Int := (mantissa * power 2 (exponent - unit) : Nat)
  if negative then -n else n

/-- The exact sum rounded; a sum of zero is negative only if both terms are. -/
def add : Double → Double → Double
  | .nan, _ => .nan
  | _, .nan => .nan
  | .infinite a, .infinite b => if a = b then .infinite a else .nan
  | .infinite a, _ => .infinite a
  | _, .infinite b => .infinite b
  | .finite a m p, .finite b n q =>
      let unit := min p q
      let sum := inUnits a m p unit + inUnits b n q unit
      if sum = 0 then zero (a && b)
      else
        let (numerator, denominator) := scaled sum.natAbs unit
        ofRatio (decide (sum < 0)) numerator denominator

/-- The difference, as a sum with the second number negated. -/
def sub (x y : Double) : Double :=
  add x (negate y)

/-- The exact product rounded. Zero times infinity is not a number. -/
def mul : Double → Double → Double
  | .nan, _ => .nan
  | _, .nan => .nan
  | .infinite a, .infinite b => .infinite (a != b)
  | .infinite a, .finite b n _ => if n = 0 then .nan else .infinite (a != b)
  | .finite a m _, .infinite b => if m = 0 then .nan else .infinite (a != b)
  | .finite a m p, .finite b n q =>
      let (numerator, denominator) := scaled (m * n) (p + q)
      ofRatio (a != b) numerator denominator

/-- The exact quotient rounded. A number by zero is infinite, and zero by zero is not a number. -/
def div : Double → Double → Double
  | .nan, _ => .nan
  | _, .nan => .nan
  | .infinite _, .infinite _ => .nan
  | .infinite a, .finite b _ _ => .infinite (a != b)
  | .finite a _ _, .infinite b => zero (a != b)
  | .finite a m p, .finite b n q =>
      if n = 0 then (if m = 0 then .nan else .infinite (a != b))
      else
        let (numerator, denominator) := scaled m (p - q)
        ofRatio (a != b) numerator (denominator * n)

/-- The whole number a finite double is equal to, if it is one. -/
def integral? : Double → Option Int
  | .finite negative mantissa exponent =>
      let (numerator, denominator) := scaled mantissa exponent
      if numerator % denominator = 0 then
        let n : Int := (numerator / denominator : Nat)
        some (if negative then -n else n)
      else none
  | _ => none

end FragmentSynthesis.Binary64
