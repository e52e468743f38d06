import FragmentSynthesis.TypeName
import Mathlib.Data.List.Basic

namespace FragmentSynthesis.Proofs.TextLines

open FragmentSynthesis.TypeName

theorem splitLines_ne_nil (cs : List Char) : splitLines cs ≠ [] := by
  cases cs with
  | nil => simp [splitLines]
  | cons c cs =>
      unfold splitLines
      split
      · simp
      · split <;> simp

theorem splitLines_append (cs ds : List Char) :
    splitLines (cs ++ '\n' :: ds) = splitLines cs ++ splitLines ds := by
  induction cs with
  | nil => simp [splitLines]
  | cons c cs ih =>
      by_cases hc : c = '\n'
      · simp [splitLines, hc, ih]
      · obtain ⟨line, lines, hlines⟩ := List.exists_cons_of_ne_nil (splitLines_ne_nil cs)
        simp [splitLines, hc, ih, hlines]

theorem splitLines_of_notMem {cs : List Char} (h : '\n' ∉ cs) : splitLines cs = [cs] := by
  induction cs with
  | nil => rfl
  | cons c cs ih =>
      simp only [List.mem_cons, not_or] at h
      simp [splitLines, Ne.symm h.1, ih h.2]

theorem splitLines_flatMap {lines : List (List Char)} (h : ∀ line ∈ lines, '\n' ∉ line)
    (rest : List Char) :
    splitLines (lines.flatMap (· ++ ['\n']) ++ rest) = lines ++ splitLines rest := by
  induction lines with
  | nil => rfl
  | cons line lines ih =>
      obtain ⟨hline, hlines⟩ := List.forall_mem_cons.mp h
      have hrest := ih hlines
      simp only [List.flatMap_cons, List.append_assoc, List.cons_append, List.nil_append]
      rw [splitLines_append, splitLines_of_notMem hline, hrest]
      rfl

theorem joinLines_cons (line : List Char) {lines : List (List Char)} (h : lines ≠ []) :
    joinLines (line :: lines) = line ++ '\n' :: joinLines lines := by
  cases lines with
  | nil => exact absurd rfl h
  | cons _ _ => rfl

theorem joinLines_splitLines (cs : List Char) : joinLines (splitLines cs) = cs := by
  induction cs with
  | nil => rfl
  | cons c cs ih =>
      obtain ⟨line, lines, hlines⟩ := List.exists_cons_of_ne_nil (splitLines_ne_nil cs)
      by_cases hc : c = '\n'
      · rw [splitLines, if_pos hc, joinLines_cons [] (splitLines_ne_nil cs), ih, hc]
        rfl
      · rw [splitLines, if_neg hc, hlines]
        rw [hlines] at ih
        cases lines with
        | nil => exact congrArg (c :: ·) ih
        | cons _ _ => exact congrArg (c :: ·) ih

theorem newline_notMem_splitLines (cs : List Char) : ∀ line ∈ splitLines cs, '\n' ∉ line := by
  induction cs with
  | nil => simp [splitLines]
  | cons c cs ih =>
      by_cases hc : c = '\n'
      · rw [splitLines, if_pos hc]
        exact List.forall_mem_cons.mpr ⟨List.not_mem_nil, ih⟩
      · obtain ⟨line, lines, hlines⟩ := List.exists_cons_of_ne_nil (splitLines_ne_nil cs)
        rw [hlines] at ih
        obtain ⟨hline, hlast⟩ := List.forall_mem_cons.mp ih
        rw [splitLines, if_neg hc, hlines]
        refine List.forall_mem_cons.mpr ⟨?_, hlast⟩
        exact List.not_mem_cons_of_ne_of_not_mem (Ne.symm hc) hline

theorem infix_joinLines {line : List Char} {lines : List (List Char)} (h : line ∈ lines) :
    line <:+: joinLines lines := by
  induction lines with
  | nil => cases h
  | cons first lines ih =>
      cases lines with
      | nil =>
          obtain rfl := List.mem_singleton.mp h
          exact List.infix_rfl
      | cons second lines =>
          rw [joinLines_cons first (List.cons_ne_nil second lines)]
          rcases List.mem_cons.mp h with rfl | hmem
          · exact List.infix_append_left
          · exact List.infix_append_of_infix_right (List.infix_cons (ih hmem))

theorem infix_of_mem_splitLines {line cs : List Char} (h : line ∈ splitLines cs) :
    line <:+: cs := by
  have hjoined := infix_joinLines h
  rwa [joinLines_splitLines] at hjoined

theorem afterLast_eq_none {stop : Char} {cs : List Char} (h : stop ∉ cs) :
    afterLast stop cs = none := by
  induction cs with
  | nil => rfl
  | cons c cs ih =>
      rw [List.mem_cons, not_or] at h
      rw [afterLast, ih h.2]
      exact if_neg (Ne.symm h.1)

theorem afterLast_append_cons {stop : Char} (front : List Char) {back : List Char}
    (h : stop ∉ back) : afterLast stop (front ++ stop :: back) = some back := by
  induction front with
  | nil =>
      rw [List.nil_append, afterLast, afterLast_eq_none h]
      exact if_pos rfl
  | cons _ front ih => rw [List.cons_append, afterLast, ih]

section

variable {stop : Char} {front : List Char}

theorem forall_bne (h : stop ∉ front) : ∀ c ∈ front, (c != stop) = true :=
  fun _ hc => bne_iff_ne.mpr fun heq => h (heq ▸ hc)

theorem takeWhile_bne (h : stop ∉ front) (back : List Char) :
    (front ++ stop :: back).takeWhile (· != stop) = front := by
  rw [List.takeWhile_append_of_pos (forall_bne h)]
  simp

theorem dropWhile_bne (h : stop ∉ front) (back : List Char) :
    (front ++ stop :: back).dropWhile (· != stop) = stop :: back := by
  rw [List.dropWhile_append_of_pos (forall_bne h)]
  simp

end

theorem eraseLine_of_notMem {line : List Char} (h : '<' ∉ line) : eraseLine line = line := by
  have hnil : (line ++ []).dropWhile (· != '<') = [] :=
    List.dropWhile_append_of_pos (forall_bne h)
  rw [List.append_nil] at hnil
  rw [eraseLine, hnil]
  rfl

theorem eraseLine_unclosed {front back : List Char} (hfront : '<' ∉ front) (hback : '>' ∉ back) :
    eraseLine (front ++ '<' :: back) = front ++ '<' :: back := by
  have hnone : afterLast '>' ('<' :: back) = none :=
    afterLast_eq_none (List.not_mem_cons_of_ne_of_not_mem (by decide) hback)
  rw [eraseLine, dropWhile_bne hfront, hnone]

/-- Of one pair of angle brackets around other text nothing is left, whatever stands inside. -/
theorem eraseLine_arguments {front back : List Char} (inner : List Char) (hfront : '<' ∉ front)
    (hback : '>' ∉ back) : eraseLine (front ++ '<' :: (inner ++ '>' :: back)) = front ++ back := by
  rw [eraseLine, takeWhile_bne hfront, dropWhile_bne hfront, ← List.cons_append,
    afterLast_append_cons _ hback]

theorem erasure_eq {type : String} (h : '\n' ∉ type.toList) :
    erasure type = String.ofList (eraseLine type.toList) := by
  rw [erasure, splitLines_of_notMem h]
  rfl

end FragmentSynthesis.Proofs.TextLines
