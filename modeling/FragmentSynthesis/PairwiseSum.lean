import FragmentSynthesis.Binary64

/-!
The mean of a list of doubles. Sums of at most one hundred and twenty-eight terms run in eight
interleaved accumulators; longer lists are halved, at a multiple of eight, and summed by parts.
-/

namespace FragmentSynthesis.PairwiseSum

open FragmentSynthesis.Binary64

/-- Adds numbers from left to right. -/
def sumFrom (start : Double) (xs : List Double) : Double :=
  xs.foldl add start

/-- Adds each further full group of eight to the accumulators; returns them and the rest. -/
def accumulate (sums : List Double) : List Double → List Double × List Double
  | a :: b :: c :: d :: e :: f :: g :: h :: rest =>
      accumulate (List.zipWith add sums [a, b, c, d, e, f, g, h]) rest
  | rest => (sums, rest)

/-- The sum of at most one hundred and twenty-eight terms. -/
def blockSum : List Double → Double
  | a :: b :: c :: d :: e :: f :: g :: h :: rest =>
      match accumulate [a, b, c, d, e, f, g, h] rest with
      | ([a, b, c, d, e, f, g, h], rest) =>
          sumFrom (add (add (add a b) (add c d)) (add (add e f) (add g h))) rest
      | (sums, rest) => sumFrom (sumFrom (zero false) sums) rest
  | [] => zero false
  | x :: xs => sumFrom x xs

/-- Adds up to 128 numbers as one block and halves longer lists, at a multiple of eight. -/
def sum (xs : List Double) : Double :=
  if xs.length ≤ 128 then blockSum xs
  else
    let half := xs.length / 2 - xs.length / 2 % 8
    add (sum (xs.take half)) (sum (xs.drop half))
termination_by xs.length
decreasing_by
  all_goals simp only [List.length_take, List.length_drop]
  all_goals omega

/-- The mean; that of the empty list is zero. -/
def mean (xs : List Double) : Double :=
  if xs.isEmpty then zero false else div (sum xs) (ofInt xs.length)

end FragmentSynthesis.PairwiseSum
