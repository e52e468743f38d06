namespace FragmentSynthesis.Base36

/-- A digit below ten as a decimal digit, any other as a small letter. -/
def digitChar (d : Nat) : Char :=
  Char.ofNat (if d < 10 then 48 + d else 87 + d)

/-- The digits of a number, least significant first; zero has the one digit zero. -/
def digits (n : Nat) : List Nat :=
  if n < 36 then [n] else n % 36 :: digits (n / 36)
termination_by n
decreasing_by omega

theorem digits_of_lt {n : Nat} (h : n < 36) : digits n = [n] := by
  rw [digits, if_pos h]

theorem digits_of_le {n : Nat} (h : 36 ≤ n) : digits n = n % 36 :: digits (n / 36) := by
  rw [digits, if_neg (by omega)]

/-- The number with the given digits, the least significant first. -/
def value : List Nat → Nat
  | [] => 0
  | d :: ds => d + 36 * value ds

@[simp] theorem value_digits (n : Nat) : value (digits n) = n := by
  induction n using Nat.strongRecOn with
  | ind n ih =>
      by_cases h : n < 36
      · simp [digits_of_lt h, value]
      · rw [digits_of_le (by omega), value, ih (n / 36) (by omega)]
        omega

theorem lt_of_mem_digits {n d : Nat} (h : d ∈ digits n) : d < 36 := by
  induction n using Nat.strongRecOn with
  | ind n ih =>
      by_cases hn : n < 36
      · rw [digits_of_lt hn, List.mem_singleton] at h
        omega
      · rw [digits_of_le (by omega), List.mem_cons] at h
        rcases h with h | h
        · omega
        · exact ih (n / 36) (by omega) h

/-- A number in base 36, the most significant digit first. -/
def numeral (n : Nat) : String :=
  String.ofList ((digits n).reverse.map digitChar)

end FragmentSynthesis.Base36
