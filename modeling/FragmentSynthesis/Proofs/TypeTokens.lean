import FragmentSynthesis.TypeName

namespace FragmentSynthesis.Proofs.TypeTokens

open FragmentSynthesis.TypeName

/-- A text of characters that may stand in a name with qualifiers. -/
def IsRun (run : List Char) : Prop :=
  run ≠ [] ∧ ∀ c ∈ run, isTokenChar c = true

theorem isRun_of_all {run : List Char} (h : (!run.isEmpty && run.all isTokenChar) = true) :
    IsRun run := by
  obtain ⟨hne, hall⟩ := Bool.and_eq_true_iff.mp h
  exact ⟨by simpa using hne, List.all_eq_true.mp hall⟩

theorem notMem_of_forall {run : List Char} (hrun : ∀ c ∈ run, isTokenChar c = true) {c : Char}
    (hc : isTokenChar c = false) : c ∉ run :=
  fun hmem => Bool.false_ne_true (hc.symm.trans (hrun c hmem))

/-- A run stands in a text and is neither preceded nor followed by a name character. -/
def StandsIn (run text : List Char) : Prop :=
  ∃ front back, text = front ++ (run ++ back) ∧
    (∀ c ∈ front.getLast?, isTokenChar c = false) ∧ ∀ c ∈ back.head?, isTokenChar c = false

section

variable {name run text : List Char} {c : Char}

theorem eq_nil_of_getLast? {front : List Char} (hfront : ∀ c ∈ front, isTokenChar c = true)
    (hlast : ∀ c ∈ front.getLast?, isTokenChar c = false) : front = [] := by
  cases h : front.getLast? with
  | none => exact List.getLast?_eq_none_iff.mp h
  | some c => exact absurd (List.mem_of_getLast? h) (notMem_of_forall hfront (hlast c h))

theorem eq_nil_of_head? {back : List Char} (hback : ∀ c ∈ back, isTokenChar c = true)
    (hhead : ∀ c ∈ back.head?, isTokenChar c = false) : back = [] := by
  cases back with
  | nil => rfl
  | cons c back => exact absurd List.mem_cons_self (notMem_of_forall hback (hhead c rfl))

theorem standsIn_run_iff (hrun : ∀ c ∈ run, isTokenChar c = true) :
    StandsIn name run ↔ name = run := by
  constructor
  · rintro ⟨front, back, rfl, hlast, hhead⟩
    rw [List.forall_mem_append, List.forall_mem_append] at hrun
    rw [eq_nil_of_getLast? hrun.1 hlast, eq_nil_of_head? hrun.2.2 hhead, List.nil_append,
      List.append_nil]
  · rintro rfl
    exact ⟨[], [], (List.append_nil _).symm, by simp, by simp⟩

theorem getLast?_append_cons (run front : List Char) (c : Char) :
    (run ++ c :: front).getLast? = some (front.getLast?.getD c) := by
  rw [List.getLast?_append, List.getLast?_cons, Option.some_or]

theorem eq_of_append_eq {back : List Char} (hname : ∀ c ∈ name, isTokenChar c = true)
    (hrun : ∀ c ∈ run, isTokenChar c = true) (hc : isTokenChar c = false)
    (hhead : ∀ c ∈ back.head?, isTokenChar c = false) (h : run ++ c :: text = name ++ back) :
    name = run := by
  rcases List.append_eq_append_iff.mp h with ⟨mid, rfl, hmid⟩ | ⟨mid, rfl, rfl⟩
  · cases mid with
    | nil => exact List.append_nil run
    | cons d mid =>
        obtain ⟨rfl, -⟩ := List.cons.inj hmid
        have hd := List.mem_append_right run (List.mem_cons_self (a := c) (l := mid))
        exact absurd hd (notMem_of_forall hname hc)
  · cases mid with
    | nil => exact (List.append_nil name).symm
    | cons d mid =>
        have hd := List.mem_append_right name (List.mem_cons_self (a := d) (l := mid))
        exact absurd hd (notMem_of_forall hrun (hhead d rfl))

/-- Behind a run and a character that ends it, the search goes on as if nothing stood before. -/
theorem standsIn_append_cons_iff (hname : IsRun name) (hrun : ∀ c ∈ run, isTokenChar c = true)
    (hc : isTokenChar c = false) :
    StandsIn name (run ++ c :: text) ↔ name = run ∨ StandsIn name text := by
  constructor
  · rintro ⟨front, back, htext, hlast, hhead⟩
    rcases List.append_eq_append_iff.mp htext with ⟨mid, rfl, hmid⟩ | ⟨mid, rfl, hmid⟩
    · cases mid with
      | nil =>
          have hnil := eq_of_append_eq hname.2 (List.forall_mem_nil _) hc hhead hmid
          exact absurd hnil hname.1
      | cons d mid =>
          obtain ⟨rfl, rfl⟩ := List.cons.inj hmid
          rw [getLast?_append_cons] at hlast
          refine .inr ⟨mid, back, rfl, fun d hd => hlast d ?_, hhead⟩
          rw [Option.mem_def.mp hd]
          rfl
    · rw [List.forall_mem_append] at hrun
      obtain rfl := eq_nil_of_getLast? hrun.1 hlast
      exact .inl (eq_of_append_eq hname.2 hrun.2 hc hhead hmid.symm)
  · rintro (rfl | ⟨front, back, rfl, hlast, hhead⟩)
    · exact ⟨[], c :: text, rfl, by simp, by simpa using hc⟩
    · refine ⟨run ++ c :: front, back, by simp, ?_, hhead⟩
      rw [getLast?_append_cons]
      rintro d ⟨⟩
      cases h : front.getLast? with
      | none => exact hc
      | some d => exact hlast d h

theorem not_standsIn_of_forall (hname : IsRun name) (htext : ∀ c ∈ text, isTokenChar c = false) :
    ¬ StandsIn name text := by
  rintro ⟨front, back, rfl, -, -⟩
  obtain ⟨c, hc⟩ := List.exists_mem_of_ne_nil name hname.1
  have hmem : c ∈ front ++ (name ++ back) := by simp [hc]
  exact notMem_of_forall hname.2 (htext c hmem) hc

theorem standsIn_append_iff (hname : IsRun name) (hrun : ∀ c ∈ run, isTokenChar c = true)
    (htext : ∀ c ∈ text, isTokenChar c = false) : StandsIn name (run ++ text) ↔ name = run := by
  cases text with
  | nil => rw [List.append_nil, standsIn_run_iff hrun]
  | cons c text =>
      obtain ⟨hc, hrest⟩ := List.forall_mem_cons.mp htext
      rw [standsIn_append_cons_iff hname hrun hc, or_iff_left (not_standsIn_of_forall hname hrest)]

end

theorem forall_mem_reverse {current : List Char} (h : ∀ c ∈ current, isTokenChar c = true) :
    ∀ c ∈ current.reverse, isTokenChar c = true :=
  fun c hc => h c (List.mem_reverse.mp hc)

/-- The characters read so far begin the text that is left to be read. -/
theorem mem_tokensFrom_iff {name : List Char} (hname : IsRun name) (text current : List Char)
    (hcurrent : ∀ c ∈ current, isTokenChar c = true) :
    String.ofList name ∈ tokensFrom current text ↔ StandsIn name (current.reverse ++ text) := by
  induction text generalizing current with
  | nil =>
      rw [List.append_nil, standsIn_run_iff (forall_mem_reverse hcurrent), tokensFrom]
      cases current with
      | nil => simpa using hname.1
      | cons c current => exact List.mem_singleton.trans String.ofList_inj
  | cons c text ih =>
      rw [tokensFrom]
      cases hc : isTokenChar c with
      | true =>
          rw [if_pos rfl, ih (c :: current) (List.forall_mem_cons.mpr ⟨hc, hcurrent⟩),
            List.reverse_cons, List.append_assoc, List.singleton_append]
      | false =>
          rw [standsIn_append_cons_iff hname (forall_mem_reverse hcurrent) hc]
          have hrest := ih [] (List.forall_mem_nil _)
          cases current with
          | nil => exact hrest.trans (or_iff_right hname.1).symm
          | cons d current =>
              exact List.mem_cons.trans (or_congr String.ofList_inj hrest)

theorem mem_tokens_iff {name : String} (hname : IsRun name.toList) (type : String) :
    name ∈ tokens type ↔ StandsIn name.toList type.toList := by
  have h := mem_tokensFrom_iff hname type.toList [] (List.forall_mem_nil _)
  rwa [String.ofList_toList] at h

end FragmentSynthesis.Proofs.TypeTokens
