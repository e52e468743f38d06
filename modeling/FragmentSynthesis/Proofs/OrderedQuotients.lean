import FragmentSynthesis.Proofs.Quotients

namespace FragmentSynthesis.Proofs.OrderedQuotients

open FragmentSynthesis.Binary64
open FragmentSynthesis.Proofs.Quotients

/-- The order of doubles. What is no number is neither above nor below anything. -/
def NoGreater : Double → Double → Prop
  | .nan, _ => False
  | _, .nan => False
  | .infinite negative, y => negative = true ∨ y = .infinite false
  | .finite _ _ _, .infinite negative => negative = false
  | .finite a m p, .finite b n q => inUnits a m p (min p q) ≤ inUnits b n q (min p q)

/-- Numbers without a sign can be compared in any unit no larger than theirs. -/
theorem noGreater_finite_iff {a b : Nat} {p q unit : Int} (hp : unit ≤ p) (hq : unit ≤ q) :
    NoGreater (.finite false a p) (.finite false b q) ↔
      a * power 2 (p - unit) ≤ b * power 2 (q - unit) := by
  -- Passing to a smaller unit multiplies both sides by a power of two.
  have hscale (k : Nat) {r : Int} (hr : min p q ≤ r) :
      k * power 2 (r - unit) = k * power 2 (r - min p q) * power 2 (min p q - unit) := by
    have hexponents : (r - unit).toNat = (r - min p q).toNat + (min p q - unit).toNat := by omega
    rw [Nat.mul_assoc, power_eq, power_eq, power_eq, ← Nat.pow_add, hexponents]
  rw [hscale a (min_le_left p q), hscale b (min_le_right p q),
    Nat.mul_le_mul_right_iff (power_pos _)]
  exact Int.ofNat_le

theorem le_binaryOrder_iff {m n : Nat} (hm : 0 < m) (hn : 0 < n) (k : Int) :
    k ≤ binaryOrder m n ↔ n * power 2 k ≤ m * power 2 (-k) := by
  have hmlow : 2 ^ m.log2 ≤ m := Nat.log2_self_le (Nat.ne_of_gt hm)
  have hnlow : 2 ^ n.log2 ≤ n := Nat.log2_self_le (Nat.ne_of_gt hn)
  have hmhigh : m < 2 ^ (m.log2 + 1) := Nat.lt_log2_self
  have hnhigh : n < 2 ^ (n.log2 + 1) := Nat.lt_log2_self
  rcases lt_trichotomy k (m.log2 - n.log2 : Int) with hlt | rfl | hgt
  · refine iff_of_true ?_ ?_
    · simp only [binaryOrder]
      split <;> omega
    · calc n * power 2 k ≤ 2 ^ (n.log2 + 1) * 2 ^ k.toNat :=
            Nat.mul_le_mul_right _ (Nat.le_of_lt hnhigh)
        _ = 2 ^ (n.log2 + 1 + k.toNat) := (Nat.pow_add ..).symm
        _ ≤ 2 ^ (m.log2 + (-k).toNat) := Nat.pow_le_pow_right Nat.two_pos (by omega)
        _ = 2 ^ m.log2 * 2 ^ (-k).toNat := Nat.pow_add ..
        _ ≤ m * power 2 (-k) := Nat.mul_le_mul_right _ hmlow
  · simp only [binaryOrder]
    split
    · rename_i htest
      exact iff_of_true (le_refl _) htest
    · rename_i htest
      exact iff_of_false (by omega) htest
  · refine iff_of_false ?_ ?_
    · simp only [binaryOrder]
      split <;> omega
    · intro h
      have hpowers : 2 ^ (n.log2 + k.toNat) < 2 ^ (m.log2 + 1 + (-k).toNat) := by
        calc 2 ^ (n.log2 + k.toNat) = 2 ^ n.log2 * 2 ^ k.toNat := Nat.pow_add ..
          _ ≤ n * power 2 k := Nat.mul_le_mul_right _ hnlow
          _ ≤ m * power 2 (-k) := h
          _ < 2 ^ (m.log2 + 1) * 2 ^ (-k).toNat := Nat.mul_lt_mul_of_pos_right hmhigh (power_pos _)
          _ = 2 ^ (m.log2 + 1 + (-k).toNat) := (Nat.pow_add ..).symm
      have hexponents := (Nat.pow_lt_pow_iff_right Nat.one_lt_two).mp hpowers
      omega

section

variable {m n m' n' : Nat}

theorem binaryOrder_mono (hm : 0 < m) (hn : 0 < n) (hm' : 0 < m') (hn' : 0 < n')
    (h : m * n' ≤ m' * n) : binaryOrder m n ≤ binaryOrder m' n' := by
  have hlow := (le_binaryOrder_iff hm hn _).mp (le_refl (binaryOrder m n))
  rw [le_binaryOrder_iff hm' hn']
  generalize power 2 (binaryOrder m n) = up at hlow ⊢
  generalize power 2 (-binaryOrder m n) = down at hlow ⊢
  refine Nat.le_of_mul_le_mul_right ?_ hn
  calc n' * up * n = n * up * n' := by ring
    _ ≤ m * down * n' := Nat.mul_le_mul_right _ hlow
    _ = m * n' * down := by ring
    _ ≤ m' * n * down := Nat.mul_le_mul_right _ h
    _ = m' * down * n := by ring

theorem roundDiv_mul_right (m n : Nat) {k : Nat} (hk : 0 < k) :
    roundDiv (m * k) (n * k) = roundDiv m n := by
  have hrest : 2 * (m % n * k) = 2 * (m % n) * k := (Nat.mul_assoc ..).symm
  simp only [roundDiv, Nat.mul_div_mul_right _ _ hk, Nat.mul_mod_mul_right, hrest,
    Nat.mul_lt_mul_right hk, Nat.mul_left_inj (Nat.ne_of_gt hk)]

theorem roundDiv_le_roundDiv (hn : 0 < n) (hn' : 0 < n') (h : m * n' ≤ m' * n) :
    roundDiv m n ≤ roundDiv m' n' := by
  rw [← roundDiv_mul_right m n hn', ← roundDiv_mul_right m' n' hn, Nat.mul_comm n' n]
  exact roundDiv_mono (Nat.mul_pos hn hn') h

/-- A fraction in units of a power of two, rounded. -/
def digitsAt (exponent : Int) (m n : Nat) : Nat :=
  roundDiv (m * power 2 (-exponent)) (n * power 2 exponent)

theorem digitsAt_mono (exponent : Int) (hn : 0 < n) (hn' : 0 < n') (h : m * n' ≤ m' * n) :
    digitsAt exponent m n ≤ digitsAt exponent m' n' := by
  refine roundDiv_le_roundDiv (Nat.mul_pos hn (power_pos _)) (Nat.mul_pos hn' (power_pos _)) ?_
  calc m * power 2 (-exponent) * (n' * power 2 exponent)
      = m * n' * (power 2 (-exponent) * power 2 exponent) := by ring
    _ ≤ m' * n * (power 2 (-exponent) * power 2 exponent) := Nat.mul_le_mul_right _ h
    _ = m' * power 2 (-exponent) * (n * power 2 exponent) := by ring

theorem power_shift (exponent : Int) (places : Nat) :
    power 2 (exponent + places) * power 2 (-exponent) =
      2 ^ places * power 2 exponent * power 2 (-(exponent + places)) := by
  have hexponents : (exponent + places).toNat + (-exponent).toNat =
      places + exponent.toNat + (-(exponent + places)).toNat := by omega
  simp only [power_eq]
  rw [← Nat.pow_add, ← Nat.pow_add, ← Nat.pow_add, hexponents]

theorem le_digitsAt {exponent : Int} (hm : 0 < m) (hn : 0 < n)
    (h : exponent + (52 : Nat) ≤ binaryOrder m n) : 2 ^ 52 ≤ digitsAt exponent m n := by
  have hlow := (le_binaryOrder_iff hm hn _).mp h
  have hshift := power_shift exponent 52
  refine Nat.le_trans ?_ (le_roundDiv _ _)
  rw [Nat.le_div_iff_mul_le (Nat.mul_pos hn (power_pos _))]
  generalize power 2 (exponent + (52 : Nat)) = up at hlow hshift
  refine Nat.le_of_mul_le_mul_right ?_ (power_pos (-(exponent + (52 : Nat))))
  generalize power 2 (-(exponent + (52 : Nat))) = down at hlow hshift ⊢
  calc 2 ^ 52 * (n * power 2 exponent) * down = n * (2 ^ 52 * power 2 exponent * down) := by ring
    _ = n * up * power 2 (-exponent) := by rw [← hshift]; ring
    _ ≤ m * down * power 2 (-exponent) := Nat.mul_le_mul_right _ hlow
    _ = m * power 2 (-exponent) * down := by ring

theorem digitsAt_le {exponent : Int} (hm : 0 < m) (hn : 0 < n)
    (h : binaryOrder m n < exponent + (53 : Nat)) : digitsAt exponent m n ≤ 2 ^ 53 := by
  have hhigh := mt (le_binaryOrder_iff hm hn _).mpr (Int.not_le.mpr h)
  have hshift := power_shift exponent 53
  refine roundDiv_le (Nat.mul_pos hn (power_pos _)) ?_
  generalize power 2 (exponent + (53 : Nat)) = up at hhigh hshift
  refine Nat.le_of_mul_le_mul_right ?_ (power_pos (-(exponent + (53 : Nat))))
  generalize power 2 (-(exponent + (53 : Nat))) = down at hhigh hshift ⊢
  calc m * power 2 (-exponent) * down = m * down * power 2 (-exponent) := by ring
    _ ≤ n * up * power 2 (-exponent) := Nat.mul_le_mul_right _ (Nat.le_of_lt (Nat.not_le.mp hhigh))
    _ = n * (2 ^ 53 * power 2 exponent * down) := by rw [← hshift]; ring
    _ = 2 ^ 53 * (n * power 2 exponent) * down := by ring

end

/-- Digits that are rounded up to one digit more are written with one digit less. -/
def carriedDigits (digits : Nat) : Nat :=
  if digits = 2 ^ 53 then 2 ^ 52 else digits

/-- The exponent of a mantissa that rounding may have made one digit longer. -/
def carriedExponent (digits : Nat) (exponent : Int) : Int :=
  if digits = 2 ^ 53 then exponent + 1 else exponent

theorem carriedDigits_mul (digits : Nat) {exponent unit : Int} (h : unit ≤ exponent) :
    carriedDigits digits * power 2 (carriedExponent digits exponent - unit) =
      digits * power 2 (exponent - unit) := by
  unfold carriedDigits carriedExponent
  split
  · rename_i hcarried
    have hexponents : (exponent + 1 - unit).toNat = (exponent - unit).toNat + 1 := by omega
    rw [hcarried, power_eq, power_eq, hexponents]
    ring
  · rfl

/-- The double with some digits, which is infinite if its exponent gets too large. -/
def carried (digits : Nat) (exponent : Int) : Double :=
  if 971 < carriedExponent digits exponent then .infinite false
  else .finite false (carriedDigits digits) (carriedExponent digits exponent)

/-- The exponent of the unit in which a fraction is rounded. -/
def unitOf (m n : Nat) : Int :=
  max (binaryOrder m n - 52) (-1074)

theorem ofRatio_eq_carried {m : Nat} (hm : 0 < m) (n : Nat) :
    ofRatio false m n = carried (digitsAt (unitOf m n) m n) (unitOf m n) := by
  unfold ofRatio
  rw [if_neg (Nat.ne_of_gt hm)]
  rfl

theorem noGreater_infinite {x : Double} (hx : x ≠ .nan) : NoGreater x (.infinite false) := by
  cases x with
  | nan => exact absurd rfl hx
  | infinite negative => exact .inr rfl
  | finite negative mantissa exponent => rfl

theorem carried_ne_nan (digits : Nat) (exponent : Int) : carried digits exponent ≠ .nan := by
  unfold carried
  split <;> exact nofun

/-- Digits in a larger unit, if they are all used, stand for no smaller a number. -/
theorem carried_mono {digits digits' : Nat} {exponent exponent' : Int} (hdigits : digits ≤ 2 ^ 53)
    (hdigits' : digits' ≤ 2 ^ 53) (hexponents : exponent ≤ exponent')
    (hsame : exponent = exponent' → digits ≤ digits')
    (hlarger : exponent < exponent' → 2 ^ 52 ≤ digits') :
    NoGreater (carried digits exponent) (carried digits' exponent') := by
  have hcarried : carriedExponent digits exponent ≤ carriedExponent digits' exponent' := by
    unfold carriedExponent
    split <;> split <;> omega
  by_cases hlarge : 971 < carriedExponent digits' exponent'
  · have hinfinite : carried digits' exponent' = .infinite false := if_pos hlarge
    rw [hinfinite]
    exact noGreater_infinite (carried_ne_nan digits exponent)
  · have hbelow : exponent ≤ carriedExponent digits exponent := by
      unfold carriedExponent
      split <;> omega
    rw [carried, carried, if_neg hlarge, if_neg (by omega),
      noGreater_finite_iff hbelow (Int.le_trans hbelow hcarried), carriedDigits_mul _ (le_refl _),
      carriedDigits_mul _ hexponents, Int.sub_self, power_zero, Nat.mul_one]
    rcases Int.lt_or_eq_of_le hexponents with hlt | rfl
    · have hpower : 2 ≤ power 2 (exponent' - exponent) := by
        rw [power_eq]
        exact Nat.le_self_pow (by omega) 2
      calc digits ≤ 2 ^ 53 := hdigits
        _ = 2 ^ 52 * 2 := rfl
        _ ≤ digits' * power 2 (exponent' - exponent) := Nat.mul_le_mul (hlarger hlt) hpower
    · rw [Int.sub_self, power_zero, Nat.mul_one]
      exact hsame rfl

theorem ofRatio_mono {m n m' n' : Nat} (hn : 0 < n) (hn' : 0 < n') (h : m * n' ≤ m' * n) :
    NoGreater (ofRatio false m n) (ofRatio false m' n') := by
  rcases Nat.eq_zero_or_pos m with rfl | hm
  · have hzero : ofRatio false 0 n = zero false := if_pos rfl
    rw [hzero]
    rcases Nat.eq_zero_or_pos m' with rfl | hm'
    · exact (noGreater_finite_iff (le_refl _) (le_refl _)).mpr (le_refl _)
    · rw [ofRatio_eq_carried hm', carried]
      split
      · exact noGreater_infinite nofun
      · rw [zero, noGreater_finite_iff (min_le_left _ _) (min_le_right _ _), Nat.zero_mul]
        exact Nat.zero_le _
  · have hm' : 0 < m' := by
      have hpos := Nat.lt_of_lt_of_le (Nat.mul_pos hm hn') h
      exact Nat.pos_of_mul_pos_right hpos
    have horders := binaryOrder_mono hm hn hm' hn' h
    rw [ofRatio_eq_carried hm, ofRatio_eq_carried hm']
    refine carried_mono (digitsAt_le hm hn ?_) (digitsAt_le hm' hn' ?_) ?_ ?_ ?_
    · unfold unitOf
      omega
    · unfold unitOf
      omega
    · unfold unitOf
      omega
    · intro hunits
      rw [hunits]
      exact digitsAt_mono _ hn hn' h
    · intro hunits
      refine le_digitsAt hm' hn' ?_
      unfold unitOf at hunits ⊢
      omega

/-- Of two whole numbers that are divided by the same one, the larger has the larger quotient or the
same, as long as a double holds all of them. -/
theorem div_ofInt_mono {a b n : Nat} (hn : 0 < n) (h : a ≤ b) {x y : Double}
    (hx : ofInt? n = some x) (hy : ofInt? b = some y) :
    NoGreater (div (ofInt a) (ofInt n)) (div (ofInt b) (ofInt n)) := by
  obtain ⟨k, l, unit, hl, hunit, hquotient, hk, hln⟩ := div_ofInt hn h hx hy
  obtain ⟨k', l', unit', hl', hunit', hquotient', hk', hln'⟩ := div_ofInt hn (le_refl b) hx hy
  have hnearest : nearest a ≤ nearest b := by
    rcases Nat.eq_zero_or_pos a with rfl | ha
    · exact Nat.le_trans (Nat.le_of_eq (by decide)) (Nat.zero_le _)
    · exact nearest_mono ha h
  rw [hquotient, hquotient']
  refine ofRatio_mono hl hl' (Nat.le_of_mul_le_mul_right ?_ (Nat.mul_pos hunit hunit'))
  calc k * l' * (unit * unit') = k * unit * (l' * unit') := by ring
    _ = nearest a * nearest n := by rw [hk, hln']
    _ ≤ nearest b * nearest n := Nat.mul_le_mul_right _ hnearest
    _ = k' * unit' * (l * unit) := by rw [hk', hln]
    _ = k' * l * (unit * unit') := by ring

end FragmentSynthesis.Proofs.OrderedQuotients
