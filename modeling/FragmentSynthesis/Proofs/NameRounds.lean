import FragmentSynthesis.Proofs.FreshNames
import Mathlib.Data.Nat.Init

namespace FragmentSynthesis.Proofs.NameRounds

open FragmentSynthesis.Proofs.FreshNames
open FragmentSynthesis.Scopes

/-- The first name of a round that is not taken, if there is one. -/
def freeIn (s : Scope) (names : List String) : Option String :=
  names.find? fun name => !s.isDeclared name

/-- The search from a round on ends with a name. It has no bound of its own, so that it is without
an end unless it comes to a round with a free name. -/
inductive Finds (s : Scope) (round : Nat → List String) : Nat → String → Prop
  | here {k : Nat} {name : String} (h : freeIn s (round k) = some name) : Finds s round k name
  | further {k : Nat} {name : String} (h : freeIn s (round k) = none)
      (rest : Finds s round (k + 1) name) : Finds s round k name

/-- A name stands in some round, is not taken, and all names before it in this round and in those
before are taken. -/
structure IsFirstFree (s : Scope) (round : Nat → List String) (start k i : Nat) (name : String) :
    Prop where
  start_le : start ≤ k
  listed : (round k)[i]? = some name
  free : s.isDeclared name = false
  taken : ∀ j < i, ∀ other ∈ (round k)[j]?, s.isDeclared other = true
  taken_before : ∀ j, start ≤ j → j < k → ∀ other ∈ round j, s.isDeclared other = true

variable {s : Scope} {round : Nat → List String}

theorem Finds.unique {k : Nat} {name other : String} (h : Finds s round k name)
    (h' : Finds s round k other) : name = other := by
  induction h with
  | here hfree =>
      cases h' with
      | here hfree' => exact Option.some.inj (hfree.symm.trans hfree')
      | further hnone _ => cases hfree.symm.trans hnone
  | further hnone _ ih =>
      cases h' with
      | here hfree => cases hnone.symm.trans hfree
      | further _ rest => exact ih rest

theorem freeIn_eq_some {names : List String} {i : Nat} {name : String}
    (hlisted : names[i]? = some name) (hfree : s.isDeclared name = false)
    (htaken : ∀ j < i, ∀ other ∈ names[j]?, s.isDeclared other = true) :
    freeIn s names = some name := by
  obtain ⟨hi, hname⟩ := List.getElem?_eq_some_iff.mp hlisted
  refine List.find?_eq_some_iff_getElem.mpr ⟨by rw [hfree]; rfl, i, hi, hname, fun j hj => ?_⟩
  rw [htaken j hj names[j] (List.getElem?_eq_getElem _)]
  rfl

theorem freeIn_eq_none {names : List String} (h : ∀ name ∈ names, s.isDeclared name = true) :
    freeIn s names = none := by
  refine List.find?_eq_none.mpr fun name hname => ?_
  rw [h name hname]
  exact Bool.false_ne_true

/-- The rounds before the first free name are gone through, and then it is found. -/
theorem IsFirstFree.finds {start k i : Nat} {name : String}
    (h : IsFirstFree s round start k i name) : Finds s round start name := by
  obtain ⟨hle, hlisted, hfree, htaken, hbefore⟩ := h
  induction hle using Nat.decreasingInduction with
  | self => exact .here (freeIn_eq_some hlisted hfree htaken)
  | of_succ j hj ih =>
      have hround : freeIn s (round j) = none :=
        freeIn_eq_none (hbefore j (Nat.le_refl j) hj)
      exact .further hround (ih fun m hm => hbefore m (Nat.le_of_succ_le hm))

/-- A name with the number of its round behind it, in the first round without. -/
def inRound (k : Nat) (base : String) : String :=
  if k = 0 then base else base ++ toString k

theorem cycled_eq (first : String) (others : List String) {k i : Nat}
    (hi : i < (first :: others).length) :
    ((first :: others).map (inRound k))[i]? =
      some (cycled first others ((first :: others).length * k + i)) := by
  have hlength : 0 < (first :: others).length := Nat.zero_lt_of_lt hi
  have hmod : ((first :: others).length * k + i) % (first :: others).length = i := by
    rw [Nat.mul_add_mod, Nat.mod_eq_of_lt hi]
  have hdiv : ((first :: others).length * k + i) / (first :: others).length = k := by
    rw [Nat.mul_add_div hlength, Nat.div_eq_of_lt hi, Nat.add_zero]
  rw [List.getElem?_map, List.getElem?_eq_getElem hi, Option.map_some, cycled, hmod, hdiv,
    List.getD_eq_getElem _ _ hi]
  cases k with
  | zero =>
      rw [Nat.mul_zero, Nat.zero_add, if_pos hi]
      rfl
  | succ k =>
      have hle : ¬ (first :: others).length * (k + 1) + i < (first :: others).length := by
        rw [Nat.mul_succ]
        omega
      rw [if_neg hle]
      rfl

theorem isDeclared_eq_true {name : String} : s.isDeclared name = true ↔ name ∈ s.takenNames :=
  decide_eq_true_iff

theorem isDeclared_eq_false {name : String} : s.isDeclared name = false ↔ name ∉ s.takenNames :=
  decide_eq_false_iff_not

theorem exists_firstFree_cycled (s : Scope) {first : String} {others : List String}
    (hinj : Function.Injective (cycled first others)) :
    ∃ k i, IsFirstFree s (fun k => (first :: others).map (inRound k)) 0 k i
      (s.firstFree (cycled first others) 0) := by
  have hlength : 0 < (first :: others).length := Nat.succ_pos _
  obtain ⟨n, -, hname, hfree, htaken⟩ := firstFree_spec s hinj 0
  have hplace : (first :: others).length * (n / (first :: others).length) +
      n % (first :: others).length = n := Nat.div_add_mod _ _
  have hi : n % (first :: others).length < (first :: others).length := Nat.mod_lt _ hlength
  refine ⟨n / (first :: others).length, n % (first :: others).length, Nat.zero_le _, ?_, ?_, ?_, ?_⟩
  · rw [hname, cycled_eq first others hi, hplace]
  · rw [hname]
    exact isDeclared_eq_false.mpr hfree
  · intro j hj other hother
    rw [cycled_eq first others (Nat.lt_trans hj hi), Option.mem_some_iff] at hother
    rw [← hother]
    exact isDeclared_eq_true.mpr (htaken _ (Nat.zero_le _) (by omega))
  · intro k _ hk other hother
    obtain ⟨i, hother⟩ := List.mem_iff_getElem?.mp hother
    obtain ⟨hlt, -⟩ := List.getElem?_eq_some_iff.mp hother
    rw [List.length_map] at hlt
    rw [cycled_eq first others hlt, Option.some.injEq] at hother
    rw [← hother]
    refine isDeclared_eq_true.mpr (htaken _ (Nat.zero_le _) ?_)
    -- An earlier round ends before the round of the name begins.
    have hround := Nat.mul_le_mul_left (first :: others).length (Nat.succ_le_of_lt hk)
    rw [Nat.mul_succ] at hround
    omega

theorem exists_firstFree_numbered (s : Scope) (base : String) (start : Nat) :
    ∃ n, IsFirstFree s (fun n => [base ++ toString n]) start n 0
      (s.firstFree (numbered base) start) := by
  obtain ⟨n, hle, hname, hfree, htaken⟩ := firstFree_spec s (numbered_injective base) start
  refine ⟨n, hle, ?_, ?_, fun j hj => absurd hj (Nat.not_lt_zero j), ?_⟩
  · rw [hname]
    rfl
  · rw [hname]
    exact isDeclared_eq_false.mpr hfree
  · intro m hm hmn other hother
    rw [List.mem_singleton] at hother
    rw [hother]
    exact isDeclared_eq_true.mpr (htaken m hm hmn)

/-- The search from a round on ends, with this name and no other. The name is the first free one,
and it stands in none of the places that a scope has for names. -/
structure Fresh (s : Scope) (round : Nat → List String) (start : Nat) (name : String) : Prop where
  found : ∀ result, Finds s round start result ↔ result = name
  first : ∃ k i, IsFirstFree s round start k i name
  notParameter : name ∉ s.parameters.keys
  notLocal : name ∉ s.locals.keys
  notCounter : name ∉ s.counters.names
  notHeaderCounter : name ∉ s.headerCounters.names
  notElement : name ∉ s.elements.keys
  notInScope : name ∉ s.inScope.names

theorem IsFirstFree.fresh {start k i : Nat} {name : String}
    (h : IsFirstFree s round start k i name) : Fresh s round start name := by
  have hfree := isDeclared_eq_false.mp h.free
  simp only [Scope.takenNames, List.mem_append, not_or] at hfree
  obtain ⟨⟨⟨⟨⟨hparameter, hlocal⟩, hcounter⟩, hheader⟩, helement⟩, hscope⟩ := hfree
  refine ⟨fun result => ⟨fun hresult => hresult.unique h.finds, ?_⟩, ⟨k, i, h⟩, hparameter, hlocal,
    hcounter, hheader, helement, hscope⟩
  rintro rfl
  exact h.finds

/-- Whatever a scope has declared and reserved, the searches for names end. A local gets the least
free number that is no less than the number of locals; counters and elements get the first free
name of a list that starts again with the number of the round behind each name. -/
theorem fresh_names (s : Scope) :
    Fresh s (fun n => ["var" ++ toString n]) s.locals.size s.freshLocal ∧
      Fresh s (fun k => ["i", "j", "k", "m", "n"].map (inRound k)) 0 s.freshCounter ∧
      Fresh s (fun k => ["elem"].map (inRound k)) 0 s.freshElement := by
  obtain ⟨n, hlocal⟩ := exists_firstFree_numbered s "var" s.locals.size
  obtain ⟨k, i, hcounter⟩ := exists_firstFree_cycled s counterNames_injective
  obtain ⟨k', i', helement⟩ := exists_firstFree_cycled s elementNames_injective
  exact ⟨hlocal.fresh, hcounter.fresh, helement.fresh⟩

end FragmentSynthesis.Proofs.NameRounds
