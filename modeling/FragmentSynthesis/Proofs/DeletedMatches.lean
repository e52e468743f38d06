import Mathlib.Data.List.Infix

/-!
Deleting the matches of a pattern in one pass. A text is read from the left; where matches begin,
the longest of them is left out, and reading goes on behind it. A deletion can bring together what
stood on both sides of it, so what is left may have matches of its own; if it has none, another pass
changes nothing.
-/

namespace FragmentSynthesis.Proofs.DeletedMatches

/-- What is to be deleted. Nothing matches that has no characters. -/
structure Pattern where
  Matches : List Char → Prop
  ne_nil {m : List Char} : Matches m → m ≠ []

/-- A match stands at the beginning of a text. -/
def Pattern.Begins (P : Pattern) (text : List Char) : Prop :=
  ∃ m, P.Matches m ∧ m <+: text

/-- A match stands somewhere in a text. -/
def Pattern.OccursIn (P : Pattern) (text : List Char) : Prop :=
  ∃ m, P.Matches m ∧ m <:+: text

/-- A text that falls into its longest match from the start and a rest. -/
structure Pattern.Takes (P : Pattern) (text m rest : List Char) : Prop where
  isMatch : P.Matches m
  text_eq : text = m ++ rest
  longest : ∀ other, P.Matches other → other <+: text → other.length ≤ m.length

/-- What one pass over a text leaves of it. -/
inductive Deleted (P : Pattern) : List Char → List Char → Prop
  | nil : Deleted P [] []
  | keep {c : Char} {cs out : List Char} (hno : ¬ P.Begins (c :: cs)) (hrest : Deleted P cs out) :
      Deleted P (c :: cs) (c :: out)
  | drop {text m rest out : List Char} (htake : P.Takes text m rest) (hrest : Deleted P rest out) :
      Deleted P text out

variable {P : Pattern} {text text' out out' m rest : List Char} {stop : Char}

theorem Pattern.not_begins_nil (P : Pattern) : ¬ P.Begins [] := by
  rintro ⟨m, hm, hstarts⟩
  exact P.ne_nil hm (List.prefix_nil.mp hstarts)

theorem Pattern.Begins.occursIn (h : P.Begins text) : P.OccursIn text := by
  obtain ⟨m, hm, hstarts⟩ := h
  exact ⟨m, hm, hstarts.isInfix⟩

theorem Pattern.Takes.begins (h : P.Takes text m rest) : P.Begins text :=
  ⟨m, h.isMatch, ⟨rest, h.text_eq.symm⟩⟩

theorem Pattern.Takes.rest_unique {m' rest' : List Char} (h : P.Takes text m rest)
    (h' : P.Takes text m' rest') : rest = rest' := by
  have hle := h'.longest m h.isMatch ⟨rest, h.text_eq.symm⟩
  have hge := h.longest m' h'.isMatch ⟨rest', h'.text_eq.symm⟩
  have htext : m ++ rest = m' ++ rest' := h.text_eq.symm.trans h'.text_eq
  exact (List.append_inj htext (Nat.le_antisymm hle hge)).2

theorem Deleted.unique (h : Deleted P text out) (h' : Deleted P text out') : out = out' := by
  induction h generalizing out' with
  | nil =>
      cases h' with
      | nil => rfl
      | drop htake _ => exact absurd htake.begins P.not_begins_nil
  | keep hno _ ih =>
      cases h' with
      | keep _ hrest' => rw [ih hrest']
      | drop htake _ => exact absurd htake.begins hno
  | drop htake _ ih =>
      cases h' with
      | nil => exact absurd htake.begins P.not_begins_nil
      | keep hno _ => exact absurd htake.begins hno
      | drop htake' hrest' =>
          obtain rfl := htake.rest_unique htake'
          exact ih hrest'

theorem deleted_self (h : ¬ P.OccursIn text) : Deleted P text text := by
  induction text with
  | nil => exact .nil
  | cons c cs ih =>
      refine .keep (fun hbegins => h hbegins.occursIn) (ih fun hoccurs => h ?_)
      obtain ⟨m, hm, hstands⟩ := hoccurs
      exact ⟨m, hm, List.infix_cons hstands⟩

theorem not_begins_cons {c : Char} (hc : ∀ m, P.Matches m → m.head? ≠ some c) (cs : List Char) :
    ¬ P.Begins (c :: cs) := by
  rintro ⟨m, hm, hstarts⟩
  rcases List.prefix_cons_iff.mp hstarts with rfl | ⟨tail, rfl, -⟩
  · exact P.ne_nil hm rfl
  · exact hc _ hm rfl

theorem Deleted.append_left {front : List Char}
    (hfront : ∀ c ∈ front, ∀ m, P.Matches m → m.head? ≠ some c) (h : Deleted P text out) :
    Deleted P (front ++ text) (front ++ out) := by
  induction front with
  | nil => exact h
  | cons c front ih =>
      obtain ⟨hc, hfront⟩ := List.forall_mem_cons.mp hfront
      exact .keep (not_begins_cons hc _) (ih hfront)

theorem prefix_of_notMem (h : m <+: text ++ stop :: rest) (hstop : stop ∉ m) : m <+: text := by
  have hmarked : text ++ [stop] <+: text ++ stop :: rest := ⟨rest, by simp⟩
  rcases List.prefix_or_prefix_of_prefix h hmarked with hstarts | hstarts
  · rcases List.prefix_concat_iff.mp hstarts with rfl | hstarts
    · simp at hstop
    · exact hstarts
  · exact absurd (hstarts.subset (by simp)) hstop

theorem infix_of_notMem (h : m <:+: text ++ stop :: rest) (hstop : stop ∉ m) :
    m <:+: text ∨ m <:+: rest := by
  induction text with
  | nil =>
      rcases List.infix_cons_iff.mp h with hstarts | hstands
      · have hnil : m <+: [] := prefix_of_notMem hstarts hstop
        exact .inl hnil.isInfix
      · exact .inr hstands
  | cons c text ih =>
      rcases List.infix_cons_iff.mp h with hstarts | hstands
      · have hfirst : m <+: c :: text := prefix_of_notMem hstarts hstop
        exact .inl hfirst.isInfix
      · exact (ih hstands).imp_left List.infix_cons

/-- A pass goes on as if a text began anew behind a character that stands in no match. -/
theorem Deleted.append_cons (hstop : ∀ m, P.Matches m → stop ∉ m) (h : Deleted P text out)
    (h' : Deleted P text' out') : Deleted P (text ++ stop :: text') (out ++ stop :: out') := by
  induction h with
  | nil =>
      have hhead (m) (hm : P.Matches m) : m.head? ≠ some stop :=
        fun hfirst => hstop m hm (List.mem_of_head? hfirst)
      exact .keep (not_begins_cons hhead text') h'
  | keep hno _ ih =>
      -- A match that begins in front of the character also ends there.
      refine .keep ?_ ih
      rintro ⟨m, hm, hstarts⟩
      exact hno ⟨m, hm, prefix_of_notMem hstarts (hstop m hm)⟩
  | drop htake _ ih =>
      refine .drop ⟨htake.isMatch, ?_, ?_⟩ ih
      · rw [htake.text_eq, List.append_assoc]
      · intro other hother hstarts
        exact htake.longest other hother (prefix_of_notMem hstarts (hstop other hother))

/-- One pass over a text has left nothing that a second one could delete. -/
structure Pattern.Clears (P : Pattern) (text out : List Char) : Prop where
  deleted : Deleted P text out
  cleared : ¬ P.OccursIn out

theorem clears_self (h : ¬ P.OccursIn text) : P.Clears text text :=
  ⟨deleted_self h, h⟩

theorem Pattern.Clears.cons {c : Char} (hc : ∀ m, P.Matches m → m.head? ≠ some c)
    (h : P.Clears text out) : P.Clears (c :: text) (c :: out) where
  deleted := .keep (not_begins_cons hc text) h.deleted
  cleared := by
    rintro ⟨m, hm, hstands⟩
    rcases List.infix_cons_iff.mp hstands with hstarts | hstands
    · exact not_begins_cons hc out ⟨m, hm, hstarts⟩
    · exact h.cleared ⟨m, hm, hstands⟩

theorem Pattern.Clears.append_cons (hstop : ∀ m, P.Matches m → stop ∉ m)
    (h : P.Clears text out) (h' : P.Clears text' out') :
    P.Clears (text ++ stop :: text') (out ++ stop :: out') where
  deleted := h.deleted.append_cons hstop h'.deleted
  cleared := by
    rintro ⟨m, hm, hstands⟩
    rcases infix_of_notMem hstands (hstop m hm) with hstands | hstands
    · exact h.cleared ⟨m, hm, hstands⟩
    · exact h'.cleared ⟨m, hm, hstands⟩

/-- Where every text is cleared by one pass, the second changes nothing. -/
theorem Pattern.settled {strip : String → String}
    (h : ∀ text : String, P.Clears text.toList (strip text).toList) (text : String) :
    strip (strip text) = strip text :=
  String.toList_inj.mp ((h (strip text)).deleted.unique (deleted_self (h text).cleared))

end FragmentSynthesis.Proofs.DeletedMatches
