import FragmentSynthesis.Proofs.DeletedMatches
import FragmentSynthesis.Proofs.TextLines

/-!
Type names without qualifiers and without type arguments. Both are what one pass of deletions leaves
of a type name, and after it there is nothing more to delete. A character that could begin a
qualifier is kept only in front of one that no qualifier contains, or at the end, so that what comes
together around a deleted qualifier does not make up another one.
-/

namespace FragmentSynthesis.Proofs.PlainTypeNames

open FragmentSynthesis.Proofs.DeletedMatches
open FragmentSynthesis.Proofs.TextLines
open FragmentSynthesis.TypeName

/-- A name without dots. -/
def IsName (cs : List Char) : Prop :=
  ∃ c inner, cs = c :: inner ∧ isSegmentStart c = true ∧ ∀ d ∈ inner, isSegmentChar d = true

/-- A name with the dot behind it. -/
def IsSegment (cs : List Char) : Prop :=
  ∃ name, cs = name ++ ['.'] ∧ IsName name

/-- Segments one after the other, at least one. -/
inductive IsQualifier : List Char → Prop
  | last {segment : List Char} (h : IsSegment segment) : IsQualifier segment
  | cons {segment cs : List Char} (h : IsSegment segment) (hrest : IsQualifier cs) :
      IsQualifier (segment ++ cs)

theorem toNat_lt_of_isAlpha {c : Char} (h : c.isAlpha = true) : c.toNat < 128 := by
  have hcase : c.isUpper = true ∨ c.isLower = true := Bool.or_eq_true_iff.mp h
  rcases hcase with hupper | hlower
  · have hle : c.val ≤ 'Z'.val := (of_decide_eq_true hupper).2
    exact Nat.lt_of_le_of_lt (UInt32.le_iff_toNat_le.mp hle) (by decide)
  · have hle : c.val ≤ 'z'.val := of_decide_eq_true (Bool.and_eq_true_iff.mp hlower).2
    exact Nat.lt_of_le_of_lt (UInt32.le_iff_toNat_le.mp hle) (by decide)

theorem toNat_lt_of_isSegmentStart {c : Char} (h : isSegmentStart c = true) : c.toNat < 128 := by
  simp only [isSegmentStart, Bool.or_eq_true, beq_iff_eq] at h
  rcases h with (halpha | rfl) | rfl
  · exact toNat_lt_of_isAlpha halpha
  · decide
  · decide

theorem isSegmentChar_of_isSegmentStart {c : Char} (h : isSegmentStart c = true) :
    isSegmentChar c = true := by
  have hascii : ∀ n < 128, isSegmentStart (Char.ofNat n) = true →
      isSegmentChar (Char.ofNat n) = true := by decide +kernel
  have hc := hascii c.toNat (toNat_lt_of_isSegmentStart h)
  rw [Char.ofNat_toNat] at hc
  exact hc h

section

variable {name segment segment' cs m rest rest' tail out : List Char} {c : Char}

theorem isName_singleton (hc : isSegmentStart c = true) : IsName [c] :=
  ⟨c, [], rfl, hc, List.forall_mem_nil _⟩

theorem IsName.append_singleton (h : IsName name) (hc : isSegmentChar c = true) :
    IsName (name ++ [c]) := by
  obtain ⟨first, inner, rfl, hfirst, hinner⟩ := h
  refine ⟨first, inner ++ [c], rfl, hfirst, List.forall_mem_append.mpr ⟨hinner, ?_⟩⟩
  exact List.forall_mem_singleton.mpr hc

theorem IsName.forall_isSegmentChar (h : IsName name) : ∀ c ∈ name, isSegmentChar c = true := by
  obtain ⟨first, inner, rfl, hfirst, hinner⟩ := h
  exact List.forall_mem_cons.mpr ⟨isSegmentChar_of_isSegmentStart hfirst, hinner⟩

theorem IsName.notMem (h : IsName name) (hc : isSegmentChar c = false) : c ∉ name :=
  fun hmem => Bool.false_ne_true (hc.symm.trans (h.forall_isSegmentChar c hmem))

theorem IsName.dot_notMem (h : IsName name) : '.' ∉ name :=
  h.notMem isSegmentChar_dot

theorem IsSegment.unique (h : IsSegment segment) (h' : IsSegment segment')
    (htext : segment ++ rest = segment' ++ rest') : segment = segment' ∧ rest = rest' := by
  obtain ⟨name, rfl, hname⟩ := h
  obtain ⟨name', rfl, hname'⟩ := h'
  rw [List.append_assoc, List.append_assoc, List.singleton_append, List.singleton_append] at htext
  have hnames : name = name' := by
    rw [← takeWhile_bne hname.dot_notMem rest, htext, takeWhile_bne hname'.dot_notMem rest']
  subst hnames
  exact ⟨rfl, (List.cons.inj (List.append_cancel_left htext)).2⟩

theorem IsQualifier.exists_segment (h : IsQualifier m) :
    ∃ segment, IsSegment segment ∧ segment <+: m := by
  cases h with
  | last h => exact ⟨m, h, List.prefix_rfl⟩
  | cons h _ => exact ⟨_, h, List.prefix_append _ _⟩

/-- A qualifier that begins where a segment does is the segment, or goes on with a qualifier. -/
theorem IsQualifier.eq_or_append (hm : IsQualifier m) (hs : IsSegment segment)
    (h : m <+: segment ++ rest) :
    m = segment ∨ ∃ tail, IsQualifier tail ∧ m = segment ++ tail ∧ tail <+: rest := by
  obtain ⟨after, hafter⟩ := h
  cases hm with
  | last hm => exact .inl (hm.unique hs hafter).1
  | cons hm htail =>
      rw [List.append_assoc] at hafter
      obtain ⟨rfl, hrest⟩ := hm.unique hs hafter
      exact .inr ⟨_, htail, rfl, ⟨after, hrest⟩⟩

theorem IsSegment.dot_mem (h : IsSegment segment) : '.' ∈ segment := by
  obtain ⟨name, rfl, -⟩ := h
  simp

theorem IsSegment.head? (h : IsSegment segment) :
    ∃ c, segment.head? = some c ∧ isSegmentStart c = true := by
  obtain ⟨name, rfl, c, inner, rfl, hc, -⟩ := h
  exact ⟨c, rfl, hc⟩

theorem IsSegment.notMem (h : IsSegment segment) (hc : isSegmentChar c = false) (hdot : c ≠ '.') :
    c ∉ segment := by
  obtain ⟨name, rfl, hname⟩ := h
  rw [List.mem_append, List.mem_singleton, not_or]
  exact ⟨hname.notMem hc, hdot⟩

theorem IsQualifier.dot_mem (h : IsQualifier m) : '.' ∈ m := by
  obtain ⟨segment, hs, hstarts⟩ := h.exists_segment
  exact hstarts.subset hs.dot_mem

theorem IsQualifier.head? (h : IsQualifier m) :
    ∃ c, m.head? = some c ∧ isSegmentStart c = true := by
  obtain ⟨segment, hs, rest, rfl⟩ := h.exists_segment
  obtain ⟨c, hhead, hc⟩ := hs.head?
  exact ⟨c, by rw [List.head?_append, hhead, Option.some_or], hc⟩

theorem IsQualifier.notMem (h : IsQualifier m) (hc : isSegmentChar c = false) (hdot : c ≠ '.') :
    c ∉ m := by
  induction h with
  | last hs => exact hs.notMem hc hdot
  | cons hs _ ih => exact List.not_mem_append (hs.notMem hc hdot) ih

/-- What is deleted for simple names. -/
def qualifiers : Pattern where
  Matches := IsQualifier
  ne_nil h := List.ne_nil_of_mem h.dot_mem

theorem not_occursIn_of_dot_notMem (h : '.' ∉ cs) : ¬ qualifiers.OccursIn cs := by
  rintro ⟨m, hm, hstands⟩
  exact h (hstands.subset (IsQualifier.dot_mem hm))

theorem takes_segment (hs : IsSegment segment) (hrest : ¬ qualifiers.Begins rest) :
    qualifiers.Takes (segment ++ rest) segment rest where
  isMatch := .last hs
  text_eq := rfl
  longest other hother hstarts := by
    rcases IsQualifier.eq_or_append hother hs hstarts with rfl | ⟨tail, htail, -, hbegins⟩
    · exact Nat.le_refl _
    · exact absurd ⟨tail, htail, hbegins⟩ hrest

theorem takes_segment_append (hs : IsSegment segment) (h : qualifiers.Takes rest m tail) :
    qualifiers.Takes (segment ++ rest) (segment ++ m) tail where
  isMatch := .cons hs h.isMatch
  text_eq := by rw [h.text_eq, List.append_assoc]
  longest other hother hstarts := by
    rcases IsQualifier.eq_or_append hother hs hstarts with rfl | ⟨tail, htail, rfl, hbegins⟩
    · simp
    · have hle := h.longest tail htail hbegins
      rw [List.length_append, List.length_append]
      omega

theorem clears_segment (hs : IsSegment segment) (h : qualifiers.Clears rest out) :
    qualifiers.Clears (segment ++ rest) out where
  deleted := by
    cases h.deleted with
    | nil => exact .drop (takes_segment hs qualifiers.not_begins_nil) .nil
    | keep hno hrest => exact .drop (takes_segment hs hno) (.keep hno hrest)
    | drop htake hrest => exact .drop (takes_segment_append hs htake) hrest
  cleared := h.cleared

/-- The characters that are pending stand in front of the text that is left to be read. -/
theorem clears_dropQualifiersFrom (pending cs : List Char)
    (h : pending = [] ∨ IsName pending.reverse) :
    qualifiers.Clears (pending.reverse ++ cs) (dropQualifiersFrom pending cs) := by
  fun_induction dropQualifiersFrom pending cs with
  | case1 pending =>
      rw [List.append_nil]
      refine clears_self (not_occursIn_of_dot_notMem ?_)
      rcases h with rfl | hname
      · exact List.not_mem_nil
      · exact hname.dot_notMem
  | case2 pending c cs hempty hc ih =>
      obtain rfl := List.isEmpty_iff.mp hempty
      exact ih (.inr (isName_singleton hc))
  | case3 pending c cs hempty hc ih =>
      -- Also a digit comes here: it can go on with a segment, but begins none.
      obtain rfl := List.isEmpty_iff.mp hempty
      refine Pattern.Clears.cons (fun m hm hhead => ?_) (ih (.inl rfl))
      obtain ⟨d, hd, hstart⟩ := IsQualifier.head? hm
      obtain rfl := Option.some.inj (hhead.symm.trans hd)
      exact hc hstart
  | case4 pending c cs hempty hc ih =>
      have hname := h.resolve_left (mt List.isEmpty_iff.mpr hempty)
      have hrest := ih (.inr (by rw [List.reverse_cons]; exact hname.append_singleton hc))
      rwa [List.reverse_cons, List.append_assoc] at hrest
  | case5 pending cs hempty hc ih =>
      have hname := h.resolve_left (mt List.isEmpty_iff.mpr hempty)
      have hcleared := clears_segment ⟨_, rfl, hname⟩ (ih (.inl rfl))
      rwa [List.append_assoc] at hcleared
  | case6 pending c cs hempty hc hdot ih =>
      have hname := h.resolve_left (mt List.isEmpty_iff.mpr hempty)
      -- The pending name stays as it is, for no match goes across the character that ends it.
      have hstop (m) (hm : IsQualifier m) : c ∉ m := hm.notMem (Bool.eq_false_iff.mpr hc) hdot
      have hkept := clears_self (not_occursIn_of_dot_notMem hname.dot_notMem)
      exact hkept.append_cons hstop (ih (.inl rfl))

theorem clears_simpleName (type : String) :
    qualifiers.Clears type.toList (simpleName type).toList := by
  rw [simpleName, String.toList_ofList]
  exact clears_dropQualifiersFrom [] type.toList (.inl rfl)

end

/-- Angle brackets with what stands between them on their line. -/
def IsArguments (cs : List Char) : Prop :=
  ∃ inner, cs = '<' :: (inner ++ ['>']) ∧ '\n' ∉ inner

/-- What is deleted for erased types. -/
def typeArguments : Pattern where
  Matches := IsArguments
  ne_nil := by
    rintro _ ⟨inner, rfl, -⟩
    exact List.cons_ne_nil _ _

section

variable {front inner back line m : List Char}

theorem IsArguments.newline_notMem (h : IsArguments m) : '\n' ∉ m := by
  obtain ⟨inner, rfl, hinner⟩ := h
  simp [hinner]

theorem not_occursIn_append (hfront : '<' ∉ front) (hback : '>' ∉ back) :
    ¬ typeArguments.OccursIn (front ++ back) := by
  rintro ⟨_, ⟨inner, rfl, -⟩, before, after, htext⟩
  rw [List.append_assoc] at htext
  rcases List.append_eq_append_iff.mp htext with ⟨mid, rfl, hmid⟩ | ⟨mid, rfl, rfl⟩
  · cases mid with
    | nil =>
        rw [← List.nil_append back, ← hmid] at hback
        simp at hback
    | cons d mid =>
        obtain ⟨rfl, -⟩ := List.cons.inj hmid
        exact hfront (by simp)
  · exact hback (by simp)

theorem takes_arguments (hinner : '\n' ∉ inner) (hback : '>' ∉ back) :
    typeArguments.Takes ('<' :: (inner ++ '>' :: back)) ('<' :: (inner ++ ['>'])) back where
  isMatch := ⟨inner, rfl, hinner⟩
  text_eq := by simp
  longest other hother hstarts := by
    have htaken : '<' :: (inner ++ ['>']) <+: '<' :: (inner ++ '>' :: back) := ⟨back, by simp⟩
    rcases List.prefix_or_prefix_of_prefix hstarts htaken with hle | ⟨tail, rfl⟩
    · exact hle.length_le
    · have htail : tail <+: back := by simpa using hstarts
      obtain ⟨inner', hother, -⟩ := hother
      rcases List.eq_nil_or_concat tail with rfl | ⟨init, last, rfl⟩
      · simp
      · have hends : ('<' :: (inner ++ ['>']) ++ init) ++ [last] = ('<' :: inner') ++ ['>'] := by
          simpa using hother
        obtain rfl := List.singleton_inj.mp (List.append_inj' hends rfl).2
        exact absurd (htail.subset (by simp)) hback

theorem exists_last_of_mem {c : Char} {cs : List Char} (h : c ∈ cs) :
    ∃ front back, cs = front ++ c :: back ∧ c ∉ back := by
  obtain ⟨back, front, hreverse, hback⟩ := List.eq_append_cons_of_mem (List.mem_reverse.mpr h)
  refine ⟨front.reverse, back.reverse, ?_, by simpa using hback⟩
  rw [← List.reverse_reverse cs, hreverse]
  simp

/-- A line has no bracket that is closed behind it, or all is erased from the first that is opened
to the last that is closed. -/
theorem line_cases (line : List Char) :
    (∃ front back, line = front ++ back ∧ '<' ∉ front ∧ '>' ∉ back ∧ eraseLine line = line) ∨
      ∃ front inner back, line = front ++ '<' :: (inner ++ '>' :: back) ∧ '<' ∉ front ∧
        '>' ∉ back ∧ eraseLine line = front ++ back := by
  by_cases hopen : '<' ∈ line
  · obtain ⟨front, rest, rfl, hfront⟩ := List.eq_append_cons_of_mem hopen
    by_cases hclose : '>' ∈ rest
    · obtain ⟨inner, back, rfl, hback⟩ := exists_last_of_mem hclose
      exact .inr ⟨front, inner, back, rfl, hfront, hback, eraseLine_arguments inner hfront hback⟩
    · refine .inl ⟨front, '<' :: rest, rfl, hfront, ?_, eraseLine_unclosed hfront hclose⟩
      exact List.not_mem_cons_of_ne_of_not_mem (by decide) hclose
  · have hkept := eraseLine_of_notMem hopen
    exact .inl ⟨line, [], (List.append_nil line).symm, hopen, List.not_mem_nil, hkept⟩

theorem clears_eraseLine (hline : '\n' ∉ line) : typeArguments.Clears line (eraseLine line) := by
  rcases line_cases line with ⟨front, back, rfl, hfront, hback, herase⟩ |
    ⟨front, inner, back, rfl, hfront, hback, herase⟩
  · rw [herase]
    exact clears_self (not_occursIn_append hfront hback)
  · rw [herase]
    have hinner : '\n' ∉ inner := fun hmem => hline (by simp [hmem])
    have hrest : Deleted typeArguments back back :=
      deleted_self (not_occursIn_append List.not_mem_nil hback)
    have hdropped := Deleted.drop (takes_arguments hinner hback) hrest
    refine ⟨hdropped.append_left ?_, not_occursIn_append hfront hback⟩
    rintro c hc _ ⟨inner, rfl, -⟩ hhead
    obtain rfl := Option.some.inj hhead
    exact hfront hc

end

/-- No match goes beyond its line, so the lines are cleared one by one. -/
theorem clears_joinLines {lines : List (List Char)} (h : ∀ line ∈ lines, '\n' ∉ line) :
    typeArguments.Clears (joinLines lines) (joinLines (lines.map eraseLine)) := by
  induction lines with
  | nil => exact clears_self (not_occursIn_append List.not_mem_nil List.not_mem_nil)
  | cons line lines ih =>
      obtain ⟨hline, hlines⟩ := List.forall_mem_cons.mp h
      cases lines with
      | nil => exact clears_eraseLine hline
      | cons second lines =>
          have hstop (m) (hm : IsArguments m) : '\n' ∉ m := hm.newline_notMem
          exact (clears_eraseLine hline).append_cons hstop (ih hlines)

theorem clears_erasure (type : String) :
    typeArguments.Clears type.toList (erasure type).toList := by
  have hcleared := clears_joinLines (newline_notMem_splitLines type.toList)
  rw [joinLines_splitLines] at hcleared
  rwa [erasure, String.toList_ofList]

theorem no_segment {text out : List Char} (h : qualifiers.Clears text out) :
    ¬ ∃ segment, IsSegment segment ∧ segment <:+: out := by
  rintro ⟨segment, hs, hstands⟩
  exact h.cleared ⟨segment, .last hs, hstands⟩

theorem no_closed_line {text out : List Char} (h : typeArguments.Clears text out) :
    ¬ ∃ line ∈ splitLines out, ∃ front back, line = front ++ '<' :: back ∧ '>' ∈ back := by
  rintro ⟨line, hline, front, back, rfl, hclose⟩
  obtain ⟨inner, rest, rfl⟩ := List.append_of_mem hclose
  have hinner : '\n' ∉ inner := fun hmem => newline_notMem_splitLines out _ hline (by simp [hmem])
  have hstands : '<' :: (inner ++ ['>']) <:+: front ++ '<' :: (inner ++ '>' :: rest) :=
    ⟨front, rest, by simp⟩
  exact h.cleared ⟨_, ⟨inner, rfl, hinner⟩, hstands.trans (infix_of_mem_splitLines hline)⟩

/-- One pass deletes all qualifiers, and one all type arguments: no name has a dot behind it any
more, no line has a bracket that is closed behind it, and a second pass changes nothing. -/
theorem stripped_in_one_pass (type : String) :
    qualifiers.Clears type.toList (simpleName type).toList ∧
      (¬ ∃ segment, IsSegment segment ∧ segment <:+: (simpleName type).toList) ∧
      simpleName (simpleName type) = simpleName type ∧
      typeArguments.Clears type.toList (erasure type).toList ∧
      (¬ ∃ line ∈ splitLines (erasure type).toList, ∃ front back,
        line = front ++ '<' :: back ∧ '>' ∈ back) ∧
      erasure (erasure type) = erasure type :=
  ⟨clears_simpleName type, no_segment (clears_simpleName type),
    qualifiers.settled clears_simpleName type, clears_erasure type,
    no_closed_line (clears_erasure type), typeArguments.settled clears_erasure type⟩

/-- What comes together around deleted qualifiers may end in a dot, but it does not begin like one
of them. -/
example : simpleName "1java.util.2.Map" = "12.Map" := by
  decide +kernel

end FragmentSynthesis.Proofs.PlainTypeNames
