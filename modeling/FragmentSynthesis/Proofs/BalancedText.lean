import Mathlib.Data.List.Infix

namespace FragmentSynthesis.Proofs.BalancedText

/-- At the end as many parentheses were closed as opened, and nowhere before more. -/
structure Balanced (cs : List Char) : Prop where
  total : cs.count '(' = cs.count ')'
  beginning : ∀ ds, ds <+: cs → ds.count ')' ≤ ds.count '('

theorem balanced_iff (cs : List Char) : Balanced cs ↔
    cs.count '(' = cs.count ')' ∧ ∀ ds ∈ cs.inits, ds.count ')' ≤ ds.count '(' := by
  simp only [List.mem_inits]
  exact ⟨fun h => ⟨h.total, h.beginning⟩, fun h => ⟨h.1, h.2⟩⟩

instance (cs : List Char) : Decidable (Balanced cs) :=
  decidable_of_iff _ (balanced_iff cs).symm

/-- A character that is no parenthesis. -/
def isPlain (c : Char) : Bool :=
  c != '(' && c != ')'

theorem isPlain_open : isPlain '(' = false := rfl

theorem isPlain_close : isPlain ')' = false := rfl

theorem ne_of_isPlain {c : Char} (h : isPlain c = true) : c ≠ '(' ∧ c ≠ ')' := by
  simpa [isPlain] using h

theorem count_of_plain {cs : List Char} (h : ∀ c ∈ cs, isPlain c = true) :
    cs.count '(' = 0 ∧ cs.count ')' = 0 := by
  constructor
  · exact List.count_eq_zero.mpr fun hmem => absurd rfl (ne_of_isPlain (h _ hmem)).1
  · exact List.count_eq_zero.mpr fun hmem => absurd rfl (ne_of_isPlain (h _ hmem)).2

theorem balanced_of_plain {cs : List Char} (h : ∀ c ∈ cs, isPlain c = true) : Balanced cs where
  total := by
    obtain ⟨hopen, hclose⟩ := count_of_plain h
    rw [hopen, hclose]
  beginning ds hds := by
    rw [(count_of_plain fun c hc => h c (hds.subset hc)).2]
    exact Nat.zero_le _

theorem beginning_append {α : Type} {ds xs ys : List α} (h : ds <+: xs ++ ys) :
    ds <+: xs ∨ ∃ es, ds = xs ++ es ∧ es <+: ys := by
  obtain ⟨rest, hrest⟩ := h
  rcases List.append_eq_append_iff.mp hrest with ⟨es, rfl, -⟩ | ⟨es, rfl, rfl⟩
  · exact .inl (List.prefix_append ds es)
  · exact .inr ⟨es, rfl, List.prefix_append es rest⟩

theorem Balanced.append {xs ys : List Char} (hxs : Balanced xs) (hys : Balanced ys) :
    Balanced (xs ++ ys) where
  total := by rw [List.count_append, List.count_append, hxs.total, hys.total]
  beginning ds hds := by
    rcases beginning_append hds with hds | ⟨es, rfl, hes⟩
    · exact hxs.beginning ds hds
    · have hrest := hys.beginning es hes
      have htotal := hxs.total
      rw [List.count_append, List.count_append]
      omega

theorem Balanced.enclosed {cs : List Char} (h : Balanced cs) : Balanced ('(' :: (cs ++ [')'])) where
  total := by
    have htotal := h.total
    simp [htotal]
  beginning ds hds := by
    rcases List.prefix_cons_iff.mp hds with rfl | ⟨es, rfl, hes⟩
    · exact Nat.le_refl _
    · have hinner : es.count ')' ≤ es.count '(' + 1 := by
        rcases beginning_append hes with hes | ⟨fs, rfl, hfs⟩
        · exact Nat.le_succ_of_le (h.beginning es hes)
        · have hlast : fs.count ')' ≤ [')'].count ')' := hfs.sublist.count_le _
          have htotal := h.total
          rw [List.count_append, List.count_append]
          simp only [List.count_singleton_self] at hlast
          omega
      simpa [List.count_cons] using hinner

/-- A parenthesis is closed before a balanced text ends, so a beginning of balanced text cannot be
all that follows. -/
theorem Balanced.closes {a b xs ys : List Char} (h : Balanced (a ++ '(' :: xs)) (hb : Balanced b)
    (hxs : b = xs ++ ys) : False := by
  have htotal := h.total
  have hfirst := h.beginning a (List.prefix_append a _)
  have hrest := hb.beginning xs (hxs ▸ List.prefix_append xs ys)
  simp only [List.count_append, List.count_cons] at htotal
  simp at htotal
  omega

theorem Balanced.not_close {b xs : List Char} (h : Balanced (b ++ ')' :: xs)) (hb : Balanced b) :
    False := by
  have htotal := hb.total
  have hfirst := h.beginning (b ++ [')']) ⟨xs, by simp⟩
  simp at hfirst
  omega

theorem Balanced.pair_append {xs ys a b c : List Char} (hxs : Balanced xs) (hb : Balanced b)
    (h : xs ++ ys = a ++ '(' :: (b ++ ')' :: c)) :
    (∃ d, xs = a ++ '(' :: (b ++ ')' :: d) ∧ c = d ++ ys) ∨
      ∃ d, a = xs ++ d ∧ ys = d ++ '(' :: (b ++ ')' :: c) := by
  rcases List.append_eq_append_iff.mp h with ⟨d, hd, hys⟩ | ⟨d, hd, hrest⟩
  · exact .inr ⟨d, hd, hys⟩
  · cases d with
    | nil => exact .inr ⟨[], by simpa using hd.symm, by simpa using hrest.symm⟩
    | cons p d =>
        rw [List.cons_append, List.cons.injEq] at hrest
        obtain ⟨rfl, hrest⟩ := hrest
        subst hd
        rcases List.append_eq_append_iff.mp hrest with ⟨e, hinner, hclose⟩ | ⟨e, hinner, -⟩
        · cases e with
          | nil =>
              have hb' : b = d ++ [] := by simpa using hinner.symm
              exact (hxs.closes hb hb').elim
          | cons q e =>
              obtain ⟨rfl, hc⟩ := List.cons.inj hclose
              exact .inl ⟨e, by rw [hinner], hc⟩
        · exact (hxs.closes hb hinner).elim

/-- Between parentheses a pair of them is the outermost one or stands inside. -/
theorem Balanced.pair_enclosed {xs a b c : List Char} (hxs : Balanced xs) (hb : Balanced b)
    (h : '(' :: (xs ++ [')']) = a ++ '(' :: (b ++ ')' :: c)) :
    (a = [] ∧ b = xs ∧ c = []) ∨
      ∃ d e, a = '(' :: d ∧ c = e ++ [')'] ∧ xs = d ++ '(' :: (b ++ ')' :: e) := by
  rcases List.cons_eq_append_iff.mp h with ⟨rfl, hrest⟩ | ⟨d, rfl, hrest⟩
  · have hrest : xs ++ [')'] = b ++ ')' :: c := (List.cons.inj hrest).2.symm
    refine .inl ⟨rfl, ?_⟩
    rcases List.append_eq_append_iff.mp hrest with ⟨e, hinner, hend⟩ | ⟨e, hinner, hend⟩
    · cases e with
      | nil => exact ⟨by simpa using hinner, (List.cons.inj hend).2.symm⟩
      | cons p e => simp at hend
    · cases e with
      | nil => exact ⟨by simpa using hinner.symm, (List.cons.inj hend).2⟩
      | cons p e =>
          obtain ⟨rfl, -⟩ := List.cons.inj hend
          exact ((hinner ▸ hxs).not_close hb).elim
  · rcases hxs.pair_append hb hrest with ⟨e, hxs, hc⟩ | ⟨e, -, hend⟩
    · exact .inr ⟨d, e, rfl, hc, hxs⟩
    · have hmem : '(' ∈ [')'] := hend ▸ List.mem_append_right e List.mem_cons_self
      cases hmem with
      | tail _ h => cases h

theorem plain_split {xs ys us vs : List Char} {c d : Char} (hc : isPlain c = true)
    (hd : isPlain d = true) (hfront : xs.filter isPlain = us.filter isPlain)
    (h : xs ++ c :: ys = us ++ d :: vs) : xs = us ∧ c = d ∧ ys = vs := by
  induction xs generalizing us with
  | nil =>
      cases us with
      | nil => exact ⟨rfl, List.cons.inj h⟩
      | cons u us =>
          obtain ⟨rfl, -⟩ := List.cons.inj h
          simp [hc] at hfront
  | cons x xs ih =>
      cases us with
      | nil =>
          obtain ⟨rfl, -⟩ := List.cons.inj h
          simp [hd] at hfront
      | cons u us =>
          obtain ⟨rfl, hrest⟩ := List.cons.inj h
          have hrest : xs ++ c :: ys = us ++ d :: vs := hrest
          have hothers : xs.filter isPlain = us.filter isPlain := by
            by_cases hx : isPlain x = true
            · simpa [hx] using hfront
            · simpa [hx] using hfront
          obtain ⟨rfl, hbehind⟩ := ih hothers hrest
          exact ⟨rfl, hbehind⟩

end FragmentSynthesis.Proofs.BalancedText
