import FragmentSynthesis.Binary64
import Mathlib.Tactic.Ring

namespace FragmentSynthesis.Proofs.Quotients

open FragmentSynthesis.Binary64

/-- The double that is equal to one. -/
def one : Double :=
  .finite false (power 2 52) (-52)

theorem power_zero (base : Nat) : power base 0 = 1 := rfl

theorem power_eq (exponent : Int) : power 2 exponent = 2 ^ exponent.toNat := rfl

theorem power_of_nonpos {exponent : Int} (h : exponent ≤ 0) : power 2 exponent = 1 := by
  rw [power_eq, Int.toNat_of_nonpos h, Nat.pow_zero]

theorem power_pos (exponent : Int) : 0 < power 2 exponent :=
  Nat.pow_pos Nat.two_pos

theorem le_roundDiv (numerator denominator : Nat) :
    numerator / denominator ≤ roundDiv numerator denominator := by
  unfold roundDiv
  simp only
  split <;> omega

theorem roundDiv_le {n d k : Nat} (hd : 0 < d) (h : n ≤ k * d) : roundDiv n d ≤ k := by
  have hquotient : n / d ≤ k := Nat.div_le_of_le_mul (Nat.mul_comm k d ▸ h)
  have hsplit : d * (n / d) + n % d = n := Nat.div_add_mod n d
  unfold roundDiv
  simp only
  split
  · exact hquotient
  · rename_i hup
    rcases Nat.lt_or_eq_of_le hquotient with hlt | heq
    · exact hlt
    · -- a quotient that is already as large leaves no rest to round up
      have hrest : n % d = 0 := by
        rw [heq, Nat.mul_comm] at hsplit
        omega
      exact absurd (.inl (by rw [hrest]; exact hd)) hup

theorem roundDiv_mono {m n d : Nat} (hd : 0 < d) (h : m ≤ n) :
    roundDiv m d ≤ roundDiv n d := by
  have hquotients : m / d ≤ n / d := Nat.div_le_div_right h
  rcases Nat.lt_or_eq_of_le hquotients with hlt | heq
  · refine Nat.le_trans (roundDiv_le hd ?_) (le_roundDiv n d)
    have hbelow : m < (m / d + 1) * d := Nat.lt_mul_of_div_lt (Nat.lt_succ_self _) hd
    exact Nat.le_of_lt (Nat.lt_of_lt_of_le hbelow (Nat.mul_le_mul_right d hlt))
  · have hrests : m % d ≤ n % d := by
      have hm := Nat.div_add_mod m d
      have hn := Nat.div_add_mod n d
      rw [heq] at hm
      omega
    unfold roundDiv
    simp only [heq]
    split <;> split <;> omega

theorem roundDiv_mul_left {n : Nat} (hn : 0 < n) (k : Nat) : roundDiv (n * k) n = k := by
  simp [roundDiv, hn]

theorem binaryOrder_self (n : Nat) : binaryOrder n n = 0 := by
  simp [binaryOrder, power_zero]

theorem ofRatio_self {n : Nat} (hn : 0 < n) : ofRatio false n n = one := by
  have hmantissa : roundDiv (n * power 2 52) (n * power 2 (-52)) = 2 ^ 52 := by
    have hdown : power 2 (-52) = 1 := rfl
    rw [hdown, Nat.mul_one, roundDiv_mul_left hn]
    rfl
  have hcarried : ¬ (2 ^ 52 = power 2 53) := by decide
  have hexponent : max ((0 : Int) - 52) (-1074) = -52 := by decide
  unfold ofRatio
  rw [if_neg (Nat.ne_of_gt hn), binaryOrder_self]
  simp only [hexponent, Int.neg_neg, hmantissa, hcarried, if_false]
  rfl

theorem div_self {m : Nat} (hm : m ≠ 0) (k : Int) :
    div (.finite false m k) (.finite false m k) = one := by
  simp only [div, scaled, if_neg hm, Int.sub_self, Int.neg_zero, power_zero, Nat.mul_one,
    Nat.one_mul]
  exact ofRatio_self (Nat.pos_of_ne_zero hm)

theorem binaryOrder_one {n : Nat} (hn : 0 < n) : binaryOrder n 1 = n.log2 := by
  have hone : Nat.log2 1 = 0 := by decide
  have hdown : power 2 (n.log2 : Int) ≤ n := Nat.log2_self_le (Nat.ne_of_gt hn)
  have hup : power 2 (-(n.log2 : Int)) = 1 := power_of_nonpos (by omega)
  simp only [binaryOrder, hone, Int.natCast_zero, Int.sub_zero, Nat.one_mul, hup, Nat.mul_one]
  exact if_pos hdown

/-- The 53 leading binary digits of a whole number, rounded. -/
def leadingDigits (n : Nat) : Nat :=
  roundDiv (n * power 2 (52 - n.log2 : Int)) (power 2 (n.log2 - 52 : Int))

/-- The double nearest to a positive whole number, in units of `2 ^ (-52)`. -/
def nearest (n : Nat) : Nat :=
  leadingDigits n * 2 ^ n.log2

theorem power_balance (k : Nat) :
    power 2 (k - 52 : Int) * 2 ^ 52 = 2 ^ k * power 2 (52 - k : Int) := by
  have hexponents : (k - 52 : Int).toNat + 52 = k + (52 - k : Int).toNat := by omega
  calc power 2 (k - 52 : Int) * 2 ^ 52 = 2 ^ ((k - 52 : Int).toNat + 52) := (Nat.pow_add ..).symm
    _ = 2 ^ (k + (52 - k : Int).toNat) := by rw [hexponents]
    _ = 2 ^ k * power 2 (52 - k : Int) := Nat.pow_add ..

theorem le_leadingDigits {n : Nat} (hn : 0 < n) : 2 ^ 52 ≤ leadingDigits n := by
  have hlow : 2 ^ n.log2 ≤ n := Nat.log2_self_le (Nat.ne_of_gt hn)
  refine Nat.le_trans ?_ (le_roundDiv _ _)
  rw [Nat.le_div_iff_mul_le (power_pos _), Nat.mul_comm, power_balance]
  exact Nat.mul_le_mul_right _ hlow

theorem leadingDigits_le (n : Nat) : leadingDigits n ≤ 2 ^ 53 := by
  have hhigh : n ≤ 2 ^ (n.log2 + 1) := Nat.le_of_lt Nat.lt_log2_self
  refine roundDiv_le (power_pos _) ?_
  calc n * power 2 (52 - n.log2 : Int)
      ≤ 2 ^ (n.log2 + 1) * power 2 (52 - n.log2 : Int) := Nat.mul_le_mul_right _ hhigh
    _ = 2 * (2 ^ n.log2 * power 2 (52 - n.log2 : Int)) := by rw [Nat.pow_succ]; ring
    _ = 2 * (power 2 (n.log2 - 52 : Int) * 2 ^ 52) := by rw [power_balance]
    _ = 2 ^ 53 * power 2 (n.log2 - 52 : Int) := by ring

theorem leadingDigits_mono {m n : Nat} (horders : m.log2 = n.log2) (h : m ≤ n) :
    leadingDigits m ≤ leadingDigits n := by
  unfold leadingDigits
  rw [horders]
  exact roundDiv_mono (power_pos _) (Nat.mul_le_mul_right _ h)

theorem log2_mono {m n : Nat} (hm : 0 < m) (h : m ≤ n) : m.log2 ≤ n.log2 := by
  rw [Nat.le_log2 (Nat.ne_of_gt (Nat.lt_of_lt_of_le hm h))]
  exact Nat.le_trans (Nat.log2_self_le (Nat.ne_of_gt hm)) h

theorem nearest_mono {m n : Nat} (hm : 0 < m) (h : m ≤ n) : nearest m ≤ nearest n := by
  have horders := log2_mono hm h
  rcases Nat.lt_or_eq_of_le horders with hlt | heq
  · -- more digits: the smaller number stays below the power of two that the larger one starts at
    calc nearest m ≤ 2 ^ 53 * 2 ^ m.log2 := Nat.mul_le_mul_right _ (leadingDigits_le m)
      _ = 2 ^ 52 * 2 ^ (m.log2 + 1) := by ring
      _ ≤ 2 ^ 52 * 2 ^ n.log2 :=
        Nat.mul_le_mul_left _ (Nat.pow_le_pow_right Nat.two_pos hlt)
      _ ≤ nearest n := Nat.mul_le_mul_right _ (le_leadingDigits (Nat.lt_of_lt_of_le hm h))
  · unfold nearest
    rw [heq]
    exact Nat.mul_le_mul_right _ (leadingDigits_mono heq h)

theorem nearest_eq {n : Nat} (h : n ≤ 2 ^ 53) : nearest n = n * 2 ^ 52 := by
  rcases Nat.lt_or_eq_of_le h with hlt | rfl
  · have horder : n.log2 ≤ 52 := by
      rcases Nat.eq_zero_or_pos n with rfl | hn
      · decide
      · exact Nat.le_of_lt_succ ((Nat.log2_lt (Nat.ne_of_gt hn)).mpr hlt)
    have hdown : power 2 (n.log2 - 52 : Int) = 1 := power_of_nonpos (by omega)
    have hbalance := power_balance n.log2
    rw [hdown, Nat.one_mul] at hbalance
    have hexact (k : Nat) : roundDiv k 1 = k := by
      have := roundDiv_mul_left Nat.one_pos k
      rwa [Nat.one_mul] at this
    rw [nearest, leadingDigits, hdown, hexact, hbalance]
    ring
  · decide +kernel

/-- Digits that are rounded up to one digit more are written with one digit less. -/
def roundedDigits (n : Nat) : Nat :=
  if leadingDigits n = 2 ^ 53 then 2 ^ 52 else leadingDigits n

/-- The binary order of a number once it is rounded to 53 digits. -/
def roundedOrder (n : Nat) : Nat :=
  if leadingDigits n = 2 ^ 53 then n.log2 + 1 else n.log2

theorem roundedDigits_ne_zero {n : Nat} (hn : 0 < n) : roundedDigits n ≠ 0 := by
  have := le_leadingDigits hn
  unfold roundedDigits
  split <;> omega

theorem roundedDigits_mul (n : Nat) : roundedDigits n * 2 ^ roundedOrder n = nearest n := by
  unfold roundedDigits roundedOrder nearest
  split
  · rename_i hcarried
    rw [hcarried]
    ring
  · rfl

theorem roundedOrder_mono {m n : Nat} (hm : 0 < m) (h : m ≤ n) :
    roundedOrder m ≤ roundedOrder n := by
  rcases Nat.lt_or_eq_of_le (log2_mono hm h) with hlt | heq
  · unfold roundedOrder
    split <;> split <;> omega
  · have hdigits := leadingDigits_mono heq h
    have hfull := leadingDigits_le n
    unfold roundedOrder
    rw [heq]
    split <;> split <;> omega

theorem ofRatio_one {n : Nat} (hn : 0 < n) (negative : Bool) :
    ofRatio negative n 1 = if 1023 < roundedOrder n then .infinite negative
      else .finite negative (roundedDigits n) (roundedOrder n - 52) := by
  have horder : max (binaryOrder n 1 - 52) (-1074) = (n.log2 - 52 : Int) := by
    rw [binaryOrder_one hn]
    omega
  have hdigits : roundDiv (n * power 2 (-(n.log2 - 52 : Int))) (1 * power 2 (n.log2 - 52 : Int)) =
      leadingDigits n := by
    rw [Nat.one_mul, Int.neg_sub]
    rfl
  have hraised : (if leadingDigits n = power 2 53 then (n.log2 - 52 : Int) + 1
      else (n.log2 - 52 : Int)) = (roundedOrder n - 52 : Int) := by
    have hfull : power 2 53 = 2 ^ 53 := rfl
    rw [hfull, roundedOrder]
    split <;> omega
  have hlarge : 971 < (roundedOrder n - 52 : Int) ↔ 1023 < roundedOrder n := by omega
  unfold ofRatio
  simp only [if_neg (Nat.ne_of_gt hn), horder, hdigits, hraised, hlarge]
  rfl

/-- A double holds all whole numbers up to one that it holds. -/
theorem ofInt_eq {m n : Nat} (hm : 0 < m) (h : m ≤ n) {x : Double} (hx : ofInt? n = some x) :
    ofInt m = .finite false (roundedDigits m) (roundedOrder m - 52) := by
  have hn : 0 < n := Nat.lt_of_lt_of_le hm h
  have hholds : ¬ 1023 < roundedOrder n := by
    intro hlarge
    have hsign : decide ((n : Int) < 0) = false := by simp
    simp [ofInt?, hsign, ofRatio_one hn, hlarge, isFinite] at hx
  have hsign : decide ((m : Int) < 0) = false := by simp
  have horder := roundedOrder_mono hm h
  rw [ofInt, hsign, Int.natAbs_natCast, ofRatio_one hm, if_neg (by omega)]

/-- The double is zero, of either sign. -/
def IsZero : Double → Prop
  | .finite _ mantissa _ => mantissa = 0
  | _ => False

theorem ofInt_of_ofInt? {n : Int} {x : Double} (h : ofInt? n = some x) : ofInt n = x := by
  unfold ofInt? at h
  extract_lets y at h
  split at h
  · exact Option.some.inj h
  · cases h

theorem not_isZero {n : Nat} (hn : 0 < n) {x : Double} (h : ofInt? n = some x) : ¬ IsZero x := by
  rw [← ofInt_of_ofInt? h, ofInt_eq hn (Nat.le_refl n) h]
  exact roundedDigits_ne_zero hn

theorem exists_ofInt? {n : Nat} (hn : 0 < n) (h : n ≤ 2 ^ 53) : ∃ x, ofInt? n = some x := by
  have hsign : decide ((n : Int) < 0) = false := by simp
  have horder : roundedOrder n ≤ roundedOrder (2 ^ 53) := roundedOrder_mono hn h
  have hlargest : roundedOrder (2 ^ 53) = 53 := by decide +kernel
  have hholds : ¬ 1023 < roundedOrder n := by omega
  refine ⟨.finite false (roundedDigits n) (roundedOrder n - 52), ?_⟩
  rw [ofInt?, hsign, Int.natAbs_natCast, ofRatio_one hn, if_neg hholds]
  rfl

theorem div_ofInt_self {n : Nat} (hn : 0 < n) {x : Double} (h : ofInt? n = some x) :
    div (ofInt n) (ofInt n) = one := by
  rw [ofInt_eq hn (Nat.le_refl n) h]
  exact div_self (roundedDigits_ne_zero hn) _

/-- A double is no less than zero and no more than one. -/
def InUnitInterval : Double → Prop
  | .finite false mantissa exponent => mantissa * power 2 exponent ≤ power 2 (-exponent)
  | _ => False

theorem binaryOrder_nonpos {m n : Nat} (hm : 0 < m) (h : m ≤ n) : binaryOrder m n ≤ 0 := by
  have horders := log2_mono hm h
  simp only [binaryOrder]
  split <;> omega

theorem ofRatio_inUnitInterval {m n : Nat} (hn : 0 < n) (h : m ≤ n) :
    InUnitInterval (ofRatio false m n) := by
  rcases Nat.eq_zero_or_pos m with rfl | hm
  · simp [ofRatio, zero, InUnitInterval]
  · have horder := binaryOrder_nonpos hm h
    unfold ofRatio
    rw [if_neg (Nat.ne_of_gt hm)]
    extract_lets exponent mantissa carried raised
    have hexponent : exponent ≤ -52 := by omega
    have hdown : power 2 exponent = 1 := power_of_nonpos (by omega)
    have hmantissa : mantissa ≤ power 2 (-exponent) := by
      refine roundDiv_le (Nat.mul_pos hn (power_pos _)) ?_
      rw [hdown, Nat.mul_one, Nat.mul_comm]
      exact Nat.mul_le_mul_left _ h
    by_cases hcarried : carried
    · -- one with 53 digits behind the point is already written with 54 of them
      have hdigits : 53 ≤ (-exponent).toNat := by
        have hpowers : power 2 53 ≤ power 2 (-exponent) := hcarried ▸ hmantissa
        exact (Nat.pow_le_pow_iff_right Nat.one_lt_two).mp hpowers
      have hraised : raised = exponent + 1 := if_pos hcarried
      rw [hraised, if_neg (by omega), if_pos hcarried]
      show power 2 52 * power 2 (exponent + 1) ≤ power 2 (-(exponent + 1))
      have hdown' : power 2 (exponent + 1) = 1 := power_of_nonpos (by omega)
      rw [hdown', Nat.mul_one]
      exact Nat.pow_le_pow_right Nat.two_pos (by omega)
    · have hsame : raised = exponent := if_neg hcarried
      rw [hsame, if_neg (by omega), if_neg hcarried]
      show mantissa * power 2 exponent ≤ power 2 (-exponent)
      rwa [hdown, Nat.mul_one]

theorem ofRatio_ne_one {m n : Nat} (hn : 0 < n) (h : m * 2 ^ 53 ≤ (2 ^ 53 - 1) * n) :
    ofRatio false m n ≠ one := by
  rcases Nat.eq_zero_or_pos m with rfl | hm
  · simp [ofRatio, zero, one, power_eq]
  · have hlt : m < n := by omega
    have horder : binaryOrder m n ≤ -1 := by
      have horders := log2_mono hm (Nat.le_of_lt hlt)
      simp only [binaryOrder]
      split
      · rename_i htest
        by_contra hequal
        have hzero : (m.log2 - n.log2 : Int) = 0 := by omega
        rw [hzero, Int.neg_zero, power_zero, Nat.mul_one, Nat.mul_one] at htest
        omega
      · omega
    unfold ofRatio
    rw [if_neg (Nat.ne_of_gt hm)]
    extract_lets exponent mantissa carried raised
    intro hone
    have hfinite : ¬ 971 < raised := by
      intro hlarge
      rw [if_pos hlarge] at hone
      cases hone
    rw [if_neg hfinite] at hone
    obtain ⟨-, -, hraised⟩ := Double.finite.inj hone
    -- To become one, the fraction has to be rounded up to the next power of two.
    have hcarried : carried := by
      by_contra hcarried
      have hsame : raised = exponent := if_neg hcarried
      omega
    have hexponent : exponent = -53 := by
      have hsame : raised = exponent + 1 := if_pos hcarried
      omega
    have hmantissa : mantissa ≤ 2 ^ 53 - 1 := by
      refine roundDiv_le (Nat.mul_pos hn (power_pos _)) ?_
      rw [hexponent, power_of_nonpos (by decide : (-53 : Int) ≤ 0), Nat.mul_one]
      exact h
    have hfull : mantissa = 2 ^ 53 := hcarried
    omega

theorem div_eq_ofRatio {a b : Nat} (hb : b ≠ 0) {p q : Int} (hp : -52 ≤ p) (hq : -52 ≤ q) :
    ∃ m n unit, 0 < n ∧ 0 < unit ∧ div (.finite false a p) (.finite false b q) = ofRatio false m n ∧
      m * unit = a * power 2 (p + 52) ∧ n * unit = b * power 2 (q + 52) := by
  have hdividend : (p - q).toNat + (min p q + 52).toNat = (p + 52).toNat := by omega
  have hdivisor : (-(p - q)).toNat + (min p q + 52).toNat = (q + 52).toNat := by omega
  refine ⟨a * power 2 (p - q), power 2 (-(p - q)) * b, power 2 (min p q + 52),
    Nat.mul_pos (power_pos _) (Nat.pos_of_ne_zero hb), power_pos _, ?_, ?_, ?_⟩
  · simp only [div, scaled, if_neg hb]
    rfl
  · rw [Nat.mul_assoc, power_eq, power_eq, power_eq, ← Nat.pow_add, hdividend]
  · rw [Nat.mul_comm _ b, Nat.mul_assoc, power_eq, power_eq, power_eq, ← Nat.pow_add, hdivisor]

/-- The quotient of whole numbers is the quotient of the doubles nearest to them, where a double
holds the one and all numbers up to some bound of the other. -/
theorem div_ofInt {m n bound : Nat} (hn : 0 < n) (h : m ≤ bound) {x y : Double}
    (hx : ofInt? n = some x) (hy : ofInt? bound = some y) :
    ∃ k l unit, 0 < l ∧ 0 < unit ∧ div (ofInt m) (ofInt n) = ofRatio false k l ∧
      k * unit = nearest m ∧ l * unit = nearest n := by
  rcases Nat.eq_zero_or_pos m with rfl | hm
  · have hzero : ofInt 0 = zero false := by decide
    have hnone : nearest 0 = 0 := by decide
    refine ⟨0, nearest n, 1, ?_, Nat.one_pos, ?_, ?_, Nat.mul_one _⟩
    · exact Nat.mul_pos (Nat.lt_of_lt_of_le (by decide) (le_leadingDigits hn))
        (Nat.pow_pos Nat.two_pos)
    · rw [Int.natCast_zero, hzero, ofInt_eq hn (Nat.le_refl n) hx]
      simp [div, zero, scaled, ofRatio, roundedDigits_ne_zero hn]
    · rw [hnone, Nat.zero_mul]
  · have horder (k : Nat) : (k - 52 + 52 : Int).toNat = k := by omega
    obtain ⟨k, l, unit, hl, hunit, hquotient, hk, hl'⟩ :=
      div_eq_ofRatio (a := roundedDigits m) (roundedDigits_ne_zero hn)
        (p := roundedOrder m - 52) (q := roundedOrder n - 52) (by omega) (by omega)
    refine ⟨k, l, unit, hl, hunit, ?_, ?_, ?_⟩
    · rw [ofInt_eq hm h hy, ofInt_eq hn (Nat.le_refl n) hx, hquotient]
    · rw [hk, power_eq, horder, roundedDigits_mul]
    · rw [hl', power_eq, horder, roundedDigits_mul]

theorem div_ofInt_inUnitInterval {m n : Nat} (hn : 0 < n) (h : m ≤ n) {x : Double}
    (hx : ofInt? n = some x) : InUnitInterval (div (ofInt m) (ofInt n)) := by
  obtain ⟨k, l, unit, hl, hunit, hquotient, hk, hln⟩ := div_ofInt hn h hx hx
  rw [hquotient]
  refine ofRatio_inUnitInterval hl (Nat.le_of_mul_le_mul_right ?_ hunit)
  rw [hk, hln]
  rcases Nat.eq_zero_or_pos m with rfl | hm
  · exact Nat.le_trans (Nat.le_of_eq (by decide)) (Nat.zero_le _)
  · exact nearest_mono hm h

/-- The quotient by a larger number is not one, as long as no two of the numbers up to it are
rounded to one double. -/
theorem div_ofInt_ne_one {m n : Nat} (h : m < n) (hn : n ≤ 2 ^ 53) :
    div (ofInt m) (ofInt n) ≠ one := by
  obtain ⟨x, hx⟩ := exists_ofInt? (Nat.zero_lt_of_lt h) hn
  obtain ⟨k, l, unit, hl, hunit, hquotient, hk, hln⟩ :=
    div_ofInt (Nat.zero_lt_of_lt h) (Nat.le_of_lt h) hx hx
  rw [nearest_eq (by omega)] at hk
  rw [nearest_eq hn] at hln
  rw [hquotient]
  refine ofRatio_ne_one hl (Nat.le_of_mul_le_mul_right ?_ hunit)
  calc k * 2 ^ 53 * unit = k * unit * 2 ^ 53 := Nat.mul_right_comm ..
    _ = m * 2 ^ 53 * 2 ^ 52 := by rw [hk, Nat.mul_right_comm]
    _ ≤ (2 ^ 53 - 1) * n * 2 ^ 52 := Nat.mul_le_mul_right _ (by omega)
    _ = (2 ^ 53 - 1) * (l * unit) := by rw [hln, Nat.mul_assoc]
    _ = (2 ^ 53 - 1) * l * unit := (Nat.mul_assoc ..).symm

end FragmentSynthesis.Proofs.Quotients
