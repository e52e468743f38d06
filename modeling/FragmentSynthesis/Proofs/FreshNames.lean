import FragmentSynthesis.Scopes
import Mathlib.Data.List.GetD
import Mathlib.Data.List.Nodup
import Mathlib.Logic.Function.Basic

namespace FragmentSynthesis.Proofs.FreshNames

open FragmentSynthesis.Scopes

theorem repr_injective : Function.Injective Nat.repr := by
  intro m n h
  have hdigits : Nat.toDigits 10 m = Nat.toDigits 10 n := by
    simpa using congrArg String.toList h
  have hvalue := congrArg (fun ds => Nat.ofDigitChars 10 ds 0) hdigits
  simpa using hvalue

theorem numbered_injective (base : String) : Function.Injective (numbered base) := by
  intro m n h
  have htext := congrArg String.toList h
  simp only [numbered, String.toList_append, List.append_cancel_left_eq, String.toList_inj] at htext
  exact repr_injective htext

/-- The digits that the round of a place in a cycle puts behind the name. -/
def roundDigits (length n : Nat) : List Char :=
  if n < length then [] else Nat.toDigits 10 (n / length)

theorem isDigit_of_mem_roundDigits {length n : Nat} {c : Char}
    (h : c ∈ roundDigits length n) : c.isDigit = true := by
  unfold roundDigits at h
  split at h
  · simp at h
  · exact Nat.isDigit_of_mem_toDigits (by decide) (by decide) h

theorem toList_cycled (first : String) (others : List String) (n : Nat) :
    (cycled first others n).toList =
      ((first :: others).getD (n % (first :: others).length) first).toList ++
        roundDigits (first :: others).length n := by
  unfold cycled roundDigits
  by_cases h : n < (first :: others).length
  · rw [if_pos h, if_pos h, List.append_nil]
  · rw [if_neg h, if_neg h, numbered, String.toList_append, Nat.toString_eq_repr, Nat.toList_repr]

theorem div_eq_of_roundDigits_eq {length m n : Nat}
    (h : roundDigits length m = roundDigits length n) : m / length = n / length := by
  unfold roundDigits at h
  split at h <;> split at h
  · rename_i hm hn
    rw [Nat.div_eq_of_lt hm, Nat.div_eq_of_lt hn]
  · exact absurd h.symm Nat.toDigits_ne_nil
  · exact absurd h Nat.toDigits_ne_nil
  · apply repr_injective
    rw [← String.toList_inj, Nat.toList_repr, Nat.toList_repr, h]

/-- Different places of a cycle have different names, as long as the names are different and do
not have digits themselves. -/
theorem cycled_injective {first : String} {others : List String}
    (hnames : (first :: others).Nodup)
    (hdigits : ∀ name ∈ first :: others, ∀ c ∈ name.toList, c.isDigit = false) :
    Function.Injective (cycled first others) := by
  intro m n h
  have hlength : 0 < (first :: others).length := by simp
  have hbound (k : Nat) : k % (first :: others).length < (first :: others).length :=
    Nat.mod_lt k hlength
  -- The name is what stands before the first digit.
  have hplain (k : Nat) :
      ∀ c ∈ ((first :: others).getD (k % (first :: others).length) first).toList,
        (!c.isDigit) = true := by
    intro c hc
    rw [List.getD_eq_getElem _ _ (hbound k)] at hc
    simp [hdigits _ (List.getElem_mem _) c hc]
  have hround (k : Nat) : ∀ c ∈ roundDigits (first :: others).length k, ¬ (!c.isDigit) = true := by
    intro c hc
    simp [isDigit_of_mem_roundDigits hc]
  have htake (k : Nat) : (cycled first others k).toList.takeWhile (fun c => !c.isDigit) =
      ((first :: others).getD (k % (first :: others).length) first).toList := by
    rw [toList_cycled, List.takeWhile_append_of_pos (hplain k)]
    cases hr : roundDigits (first :: others).length k with
    | nil => simp
    | cons c cs => simp [isDigit_of_mem_roundDigits (hr ▸ List.mem_cons_self : c ∈ _)]
  have hname : (first :: others).getD (m % (first :: others).length) first =
      (first :: others).getD (n % (first :: others).length) first := by
    rw [← String.toList_inj, ← htake, ← htake, h]
  have hmod : m % (first :: others).length = n % (first :: others).length := by
    rw [List.getD_eq_getElem _ _ (hbound m), List.getD_eq_getElem _ _ (hbound n)] at hname
    exact (hnames.getElem_inj_iff).mp hname
  have hdiv : m / (first :: others).length = n / (first :: others).length := by
    apply div_eq_of_roundDigits_eq
    have htext := congrArg String.toList h
    rw [toList_cycled, toList_cycled, hname] at htext
    exact List.append_cancel_left htext
  rw [← Nat.div_add_mod m (first :: others).length, hdiv, hmod, Nat.div_add_mod]

/-- A search that looks at one more place than there are taken names finds a free one, and all
names before it are taken. -/
theorem seek_spec (taken : List String) (candidate : Nat → String) (places start : Nat) :
    ∃ n, start ≤ n ∧ n ≤ start + places ∧ seek taken candidate places start = candidate n ∧
      (∀ m, start ≤ m → m < n → candidate m ∈ taken) ∧
      (n < start + places → candidate n ∉ taken) := by
  induction places generalizing start with
  | zero => exact ⟨start, by omega, by omega, rfl, by omega, by omega⟩
  | succ places ih =>
      unfold seek
      split
      · rename_i htaken
        obtain ⟨n, hle, hbound, hname, hbefore, hfree⟩ := ih (start + 1)
        refine ⟨n, by omega, by omega, hname, ?_, fun h => hfree (by omega)⟩
        intro m hm hmn
        rcases Nat.eq_or_lt_of_le hm with rfl | hlt
        · exact htaken
        · exact hbefore m hlt hmn
      · rename_i hfree
        exact ⟨start, by omega, by omega, rfl, by omega, fun _ => hfree⟩

theorem exists_free (taken : List String) {candidate : Nat → String}
    (hinj : Function.Injective candidate) (start : Nat)
    (h : ∀ m, start ≤ m → m < start + taken.length → candidate m ∈ taken) :
    candidate (start + taken.length) ∉ taken := by
  intro hlast
  let names := (List.range (taken.length + 1)).map fun k => candidate (start + k)
  have hnodup : names.Nodup :=
    List.nodup_range.map fun a b hab => Nat.add_left_cancel (hinj hab)
  have hsubset : names ⊆ taken := by
    intro name hname
    obtain ⟨k, hk, rfl⟩ := List.mem_map.mp hname
    rw [List.mem_range] at hk
    rcases Nat.eq_or_lt_of_le (Nat.le_of_lt_succ hk) with rfl | hlt
    · exact hlast
    · exact h _ (by omega) (by omega)
  have hcount := List.Nodup.length_le_of_subset hnodup hsubset
  rw [List.length_map, List.length_range] at hcount
  omega

theorem firstFree_spec (s : Scope) {candidate : Nat → String}
    (hinj : Function.Injective candidate) (start : Nat) :
    ∃ n, start ≤ n ∧ s.firstFree candidate start = candidate n ∧ candidate n ∉ s.takenNames ∧
      ∀ m, start ≤ m → m < n → candidate m ∈ s.takenNames := by
  obtain ⟨n, hle, hbound, hname, hbefore, hfree⟩ :=
    seek_spec s.takenNames candidate s.takenNames.length start
  refine ⟨n, hle, hname, ?_, hbefore⟩
  rcases Nat.eq_or_lt_of_le hbound with rfl | hlt
  · exact exists_free s.takenNames hinj start hbefore
  · exact hfree hlt

theorem firstFree_notMem (s : Scope) {candidate : Nat → String}
    (hinj : Function.Injective candidate) (start : Nat) :
    s.firstFree candidate start ∉ s.takenNames := by
  obtain ⟨n, -, hname, hfree, -⟩ := firstFree_spec s hinj start
  rwa [hname]

theorem counterNames_injective : Function.Injective (cycled "i" ["j", "k", "m", "n"]) :=
  cycled_injective (by decide) (by simp)

theorem elementNames_injective : Function.Injective (cycled "elem" []) :=
  cycled_injective (by decide) (by simp)

theorem freshLocal_notMem (s : Scope) : s.freshLocal ∉ s.takenNames :=
  firstFree_notMem s (numbered_injective "var") s.locals.size

theorem freshCounter_notMem (s : Scope) : s.freshCounter ∉ s.takenNames :=
  firstFree_notMem s counterNames_injective 0

theorem freshElement_notMem (s : Scope) : s.freshElement ∉ s.takenNames :=
  firstFree_notMem s elementNames_injective 0

end FragmentSynthesis.Proofs.FreshNames
