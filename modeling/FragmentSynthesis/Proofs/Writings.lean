import FragmentSynthesis.Proofs.BalancedText
import FragmentSynthesis.Proofs.SourceGrammar

/-!
Ways to write a term down. A writing of a term has parentheses around any of its parts, also where
its text would then be read in another way. A writing in which every part binds as its place asks
for is a derivation, and every derivation is one. The characters of a writing, but for blanks,
determine it: the sign of a term is found by the characters in front of it, and how many
parentheses are open there is how many stand around the term.
-/

namespace FragmentSynthesis.Proofs.Writings

open FragmentSynthesis.Operators
open FragmentSynthesis.Proofs.BalancedText
open FragmentSynthesis.Proofs.SourceGrammar
open FragmentSynthesis.Proofs.SourceTokens

/-- What is written down: a term, or the arguments of a call. -/
inductive Subject
  | term (t : Tree)
  | arguments (ts : List Tree)

/-- A way to write a subject down, with one rule for each form. -/
inductive Writing (α : Alphabet) : Subject → Type
  | name {x : String} (hname : IsName α x) : Writing α (.term (.name x))
  | number (n : Nat) : Writing α (.term (.number n))
  | group {t : Tree} (inner : Writing α (.term t)) : Writing α (.term t)
  | call {receiver : Tree} {args : List Tree} {method : String} (hname : IsName α method)
      (first : Writing α (.term receiver)) (rest : Writing α (.arguments args)) :
      Writing α (.term (.call receiver method args))
  | index {array i : Tree} (first : Writing α (.term array)) (inner : Writing α (.term i)) :
      Writing α (.term (.index array i))
  | length {array : Tree} (first : Writing α (.term array)) : Writing α (.term (.length array))
  | unary {t : Tree} (op : UnaryOp) (operand : Writing α (.term t)) :
      Writing α (.term (.unary op t))
  | binary {t u : Tree} (op : BinaryOp) (left : Writing α (.term t))
      (right : Writing α (.term u)) : Writing α (.term (.binary op t u))
  | store {array i value : Tree} (left : Writing α (.term (.index array i)))
      (right : Writing α (.term value)) : Writing α (.term (.store array i value))
  | noArguments : Writing α (.arguments [])
  | lastArgument {t : Tree} (only : Writing α (.term t)) : Writing α (.arguments [t])
  | moreArguments {t u : Tree} {args : List Tree} (first : Writing α (.term t))
      (rest : Writing α (.arguments (u :: args))) : Writing α (.arguments (t :: u :: args))

variable {α : Alphabet}

namespace Writing

/-- The characters of a writing, with something blank around operators and behind commas. -/
def text (blank : List Char) : {s : Subject} → Writing α s → List Char
  | _, @name _ x _ => x.toList
  | _, .number n => Nat.toDigits 10 n
  | _, .group inner => '(' :: (inner.text blank ++ [')'])
  | _, @call _ _ _ method _ first rest =>
      first.text blank ++ '.' :: (method.toList ++ '(' :: (rest.text blank ++ [')']))
  | _, .index first inner => first.text blank ++ '[' :: (inner.text blank ++ [']'])
  | _, .length first => first.text blank ++ ".length".toList
  | _, .unary op operand => op.symbol.toList ++ operand.text blank
  | _, .binary op left right =>
      left.text blank ++ (blank ++ op.symbol.toList ++ blank ++ right.text blank)
  | _, .store left right => left.text blank ++ (blank ++ '=' :: (blank ++ right.text blank))
  | _, .noArguments => []
  | _, .lastArgument only => only.text blank
  | _, .moreArguments first rest => first.text blank ++ ',' :: (blank ++ rest.text blank)

/-- How tight a writing binds. -/
def level : {s : Subject} → Writing α s → Nat
  | _, .name _ => Precedence.atom.level
  | _, .number _ => Precedence.atom.level
  | _, .group _ => Precedence.atom.level
  | _, .call _ _ _ => Precedence.dot.level
  | _, .index _ _ => Precedence.dot.level
  | _, .length _ => Precedence.dot.level
  | _, .unary _ _ => Precedence.unary.level
  | _, .binary op _ _ => op.precedence.level
  | _, .store _ _ => Precedence.assignment.level
  | _, .noArguments => 0
  | _, .lastArgument _ => 0
  | _, .moreArguments _ _ => 0

/-- The number of parentheses around all of a writing. -/
def groups : {s : Subject} → Writing α s → Nat
  | _, .group inner => inner.groups + 1
  | _, _ => 0

/-- Each part of a writing satisfies what its place asks for: a level, and behind a prefix operator
something about that operator. -/
def Throughout (P : {t : Tree} → Nat → Option UnaryOp → Writing α (.term t) → Prop) :
    {s : Subject} → Writing α s → Prop
  | _, .name _ => True
  | _, .number _ => True
  | _, .group inner => P Precedence.assignment.level none inner ∧ inner.Throughout P
  | _, .call _ first rest =>
      P Precedence.dot.level none first ∧ first.Throughout P ∧ rest.Throughout P
  | _, .index first inner =>
      (P Precedence.dot.level none first ∧ first.Throughout P) ∧
        P Precedence.assignment.level none inner ∧ inner.Throughout P
  | _, .length first => P Precedence.dot.level none first ∧ first.Throughout P
  | _, .unary op operand => P Precedence.unary.level (some op) operand ∧ operand.Throughout P
  | _, .binary op left right =>
      (P op.precedence.level none left ∧ left.Throughout P) ∧
        P (op.precedence.level + 1) none right ∧ right.Throughout P
  | _, .store left right =>
      (P Precedence.dot.level none left ∧ left.Throughout P) ∧
        P Precedence.assignment.level none right ∧ right.Throughout P
  | _, .noArguments => True
  | _, .lastArgument only => P Precedence.assignment.level none only ∧ only.Throughout P
  | _, .moreArguments first rest =>
      (P Precedence.assignment.level none first ∧ first.Throughout P) ∧ rest.Throughout P

/-- No part binds looser than its place asks for. -/
def Sound {s : Subject} (w : Writing α s) : Prop :=
  w.Throughout fun k _ part => k ≤ part.level

end Writing

theorem isPlain_of_part {c : Char} (h : α.isPart c = true) : isPlain c = true := by
  have hparens : '(' ∈ marks ∧ ')' ∈ marks := by decide +kernel
  have hmark := notMem_marks h
  have hopen : c ≠ '(' := fun heq => hmark (heq ▸ hparens.1)
  have hclose : c ≠ ')' := fun heq => hmark (heq ▸ hparens.2)
  simp [isPlain, hopen, hclose]

theorem plain_name {x : String} (h : IsName α x) : ∀ c ∈ x.toList, isPlain c = true :=
  fun c hc => isPlain_of_part (List.all_eq_true.mp h.2 c hc)

theorem plain_number (n : Nat) : ∀ c ∈ Nat.toDigits 10 n, isPlain c = true := by
  intro c hc
  have hdigit := Nat.isDigit_of_mem_toDigits (by decide) (by decide) hc
  have hne (d : Char) (hd : d.isDigit = false) : c ≠ d := by
    rintro rfl
    exact Bool.false_ne_true (hd.symm.trans hdigit)
  simp [isPlain, hne '(' rfl, hne ')' rfl]

theorem plain_unary (op : UnaryOp) : ∀ c ∈ op.symbol.toList, isPlain c = true := by
  rw [← List.all_eq_true]
  cases op <;> rfl

theorem plain_binary (op : BinaryOp) : ∀ c ∈ op.symbol.toList, isPlain c = true := by
  rw [← List.all_eq_true]
  cases op <;> rfl

theorem plain_length : ∀ c ∈ ".length".toList, isPlain c = true := by
  rw [← List.all_eq_true]
  rfl

theorem balanced_cons {c : Char} (hc : isPlain c = true) {cs : List Char} (hcs : Balanced cs) :
    Balanced (c :: cs) :=
  (balanced_of_plain (List.forall_mem_singleton.mpr hc)).append hcs

theorem balanced_text {blank : List Char} (hblank : ∀ c ∈ blank, isPlain c = true) {s : Subject}
    (w : Writing α s) : Balanced (w.text blank) := by
  have hspace := balanced_of_plain hblank
  induction w with
  | name hname => exact balanced_of_plain (plain_name hname)
  | number n => exact balanced_of_plain (plain_number n)
  | group inner ih => exact ih.enclosed
  | call hname first rest ihfirst ihrest =>
      have hmember := (balanced_of_plain (plain_name hname)).append ihrest.enclosed
      exact ihfirst.append (balanced_cons rfl hmember)
  | index first inner ihfirst ihinner =>
      have hend : Balanced [']'] := balanced_of_plain (List.forall_mem_singleton.mpr rfl)
      exact ihfirst.append (balanced_cons rfl (ihinner.append hend))
  | length first ih => exact ih.append (balanced_of_plain plain_length)
  | unary op operand ih => exact (balanced_of_plain (plain_unary op)).append ih
  | binary op left right ihleft ihright =>
      have hsign := (hspace.append (balanced_of_plain (plain_binary op))).append hspace
      exact ihleft.append (hsign.append ihright)
  | store left right ihleft ihright =>
      exact ihleft.append (hspace.append (balanced_cons rfl (hspace.append ihright)))
  | noArguments => exact balanced_of_plain (List.forall_mem_nil _)
  | lastArgument only ih => exact ih
  | moreArguments first rest ihfirst ihrest =>
      exact ihfirst.append (balanced_cons rfl (hspace.append ihrest))

theorem solid_name {x : String} (h : IsName α x) : solid x.toList = x.toList :=
  solid_of_notMem fun c hc => notBlank_of_part (List.all_eq_true.mp h.2 c hc)

theorem solid_text {s : Subject} (w : Writing α s) : solid (w.text [' ']) = w.text [] := by
  have hsigns : '(' ∉ blanks ∧ ')' ∉ blanks ∧ '[' ∉ blanks ∧ ']' ∉ blanks ∧ '.' ∉ blanks ∧
      ',' ∉ blanks ∧ '=' ∉ blanks := by decide
  have hblank : solid [' '] = [] := by decide
  have hend : solid [')'] = [')'] ∧ solid [']'] = [']'] := by decide
  induction w with
  | name hname => exact solid_name hname
  | number n =>
      refine solid_of_notMem fun c hc => notBlank_of_part (α := α) (α.part_of_digit c ?_)
      exact Nat.isDigit_of_mem_toDigits (by decide) (by decide) hc
  | group inner ih => simp only [Writing.text, solid_cons, solid_append, hsigns, hend, ih,
      not_false_eq_true]
  | call hname first rest ihfirst ihrest =>
      simp only [Writing.text, solid_cons, solid_append, hsigns, hend, solid_name hname, ihfirst,
        ihrest, not_false_eq_true]
  | index first inner ihfirst ihinner =>
      simp only [Writing.text, solid_cons, solid_append, hsigns, hend, ihfirst, ihinner,
        not_false_eq_true]
  | length first ih =>
      have hlength : solid ".length".toList = ".length".toList := by decide
      simp only [Writing.text, solid_append, hlength, ih]
  | unary op operand ih =>
      have hsymbol : solid op.symbol.toList = op.symbol.toList := by cases op <;> decide
      simp only [Writing.text, solid_append, hsymbol, ih]
  | binary op left right ihleft ihright =>
      have hsymbol : solid op.symbol.toList = op.symbol.toList := by cases op <;> decide
      simp only [Writing.text, solid_append, hsymbol, hblank, ihleft, ihright]
  | store left right ihleft ihright =>
      simp only [Writing.text, solid_cons, solid_append, hsigns, hblank, ihleft, ihright,
        not_false_eq_true]
  | noArguments => rfl
  | lastArgument only ih => exact ih
  | moreArguments first rest ihfirst ihrest =>
      simp only [Writing.text, solid_cons, solid_append, hsigns, hblank, ihfirst, ihrest,
        not_false_eq_true]

mutual

/-- The characters of a term but for parentheses and blanks. -/
def letters : Tree → List Char
  | .name x => x.toList
  | .number n => Nat.toDigits 10 n
  | .unary op t => op.symbol.toList ++ letters t
  | .binary op t u => letters t ++ (op.symbol.toList ++ letters u)
  | .call t method args => letters t ++ '.' :: (method.toList ++ lettersEach args)
  | .index t u => letters t ++ '[' :: (letters u ++ [']'])
  | .store t u v => letters t ++ '[' :: (letters u ++ [']']) ++ '=' :: letters v
  | .length t => letters t ++ ".length".toList
  | .unreadable => []

/-- The characters of some trees, with commas between. -/
def lettersEach : List Tree → List Char
  | [] => []
  | [t] => letters t
  | t :: u :: rest => letters t ++ ',' :: lettersEach (u :: rest)

end

def Subject.letters : Subject → List Char
  | .term t => Writings.letters t
  | .arguments ts => lettersEach ts

theorem filter_text {s : Subject} (w : Writing α s) : (w.text []).filter isPlain = s.letters := by
  have hplain {cs : List Char} (h : ∀ c ∈ cs, isPlain c = true) : cs.filter isPlain = cs :=
    List.filter_eq_self.mpr h
  induction w with
  | name hname => exact hplain (plain_name hname)
  | number n => exact hplain (plain_number n)
  | group inner ih => simp [Writing.text, isPlain_open, isPlain_close, ih]
  | call hname first rest ihfirst ihrest =>
      simp [Writing.text, ihfirst, ihrest, hplain (plain_name hname), Subject.letters, letters,
        isPlain]
  | index first inner ihfirst ihinner =>
      simp [Writing.text, ihfirst, ihinner, Subject.letters, letters, isPlain]
  | length first ih => simp [Writing.text, ih, Subject.letters, letters, isPlain]
  | unary op operand ih =>
      simp [Writing.text, ih, hplain (plain_unary op), Subject.letters, letters]
  | binary op left right ihleft ihright =>
      simp [Writing.text, ihleft, ihright, hplain (plain_binary op), Subject.letters, letters]
  | store left right ihleft ihright =>
      simp [Writing.text, ihleft, ihright, Subject.letters, letters, isPlain]
  | noArguments => rfl
  | lastArgument only ih => exact ih
  | moreArguments first rest ihfirst ihrest =>
      simp [Writing.text, ihfirst, ihrest, Subject.letters, lettersEach, isPlain]

/-- The letters in front of the sign of a term. -/
def front : Tree → List Char
  | .binary _ t _ => letters t
  | .call t _ _ => letters t
  | .index t _ => letters t
  | .store t u _ => letters (.index t u)
  | .length t => letters t
  | _ => []

/-- The sign of a term stands behind the letters in front of it, and behind as many open parentheses
as stand around the term. -/
theorem exists_sign : {t : Tree} → (w : Writing α (.term t)) → ∃ xs c ys,
    w.text [] = xs ++ c :: ys ∧ isPlain c = true ∧ xs.filter isPlain = front t ∧
      xs.count '(' = xs.count ')' + w.groups
  | _, .name hname => by
      obtain ⟨c, cs, hx, hstart, -⟩ := hname.eq_cons
      exact ⟨[], c, cs, hx, isPlain_of_part (α.part_of_start c hstart), rfl, rfl⟩
  | _, .number n => by
      obtain ⟨c, cs, hn, hdigit, -⟩ := exists_digits n
      exact ⟨[], c, cs, hn, isPlain_of_part (α.part_of_digit c hdigit), rfl, rfl⟩
  | _, .group inner => by
      obtain ⟨xs, c, ys, htext, hc, hfront, hcount⟩ := exists_sign inner
      refine ⟨'(' :: xs, c, ys ++ [')'], by simp [Writing.text, htext], hc, hfront, ?_⟩
      simp [hcount, Writing.groups, Nat.add_assoc]
  | _, .unary op _ => by
      cases op <;> exact ⟨[], _, _, rfl, rfl, rfl, rfl⟩
  | _, .binary op left _ => by
      have htotal := (balanced_text (List.forall_mem_nil _) left).total
      cases op <;> exact ⟨left.text [], _, _, rfl, rfl, filter_text left, htotal⟩
  | _, .call _ first _ =>
      ⟨first.text [], _, _, rfl, rfl, filter_text first,
        (balanced_text (List.forall_mem_nil _) first).total⟩
  | _, .index first _ =>
      ⟨first.text [], _, _, rfl, rfl, filter_text first,
        (balanced_text (List.forall_mem_nil _) first).total⟩
  | _, .length first =>
      ⟨first.text [], _, _, rfl, rfl, filter_text first,
        (balanced_text (List.forall_mem_nil _) first).total⟩
  | _, .store left _ =>
      ⟨left.text [], _, _, rfl, rfl, filter_text left,
        (balanced_text (List.forall_mem_nil _) left).total⟩

theorem groups_eq {t : Tree} {w v : Writing α (.term t)} (h : w.text [] = v.text []) :
    w.groups = v.groups := by
  obtain ⟨xs, c, ys, hw, hc, hfront, hcount⟩ := exists_sign w
  obtain ⟨us, d, vs, hv, hd, hfront', hcount'⟩ := exists_sign v
  rw [hw, hv] at h
  obtain ⟨rfl, -, -⟩ := plain_split hc hd (hfront.trans hfront'.symm) h
  omega

/-- Two writings that begin a text in front of some sign are one as texts. -/
theorem split_text {s : Subject} {w v : Writing α s} {c : Char} (hc : isPlain c = true)
    {xs ys : List Char} (h : w.text [] ++ c :: xs = v.text [] ++ c :: ys) :
    w.text [] = v.text [] ∧ xs = ys := by
  obtain ⟨htext, -, hrest⟩ := plain_split hc hc ((filter_text w).trans (filter_text v).symm) h
  exact ⟨htext, hrest⟩

/-- The characters of a writing, but for blanks, determine it. -/
theorem eq_of_text {s : Subject} {w v : Writing α s} (h : w.text [] = v.text []) : w = v := by
  -- The two have the same form, or one text is in parentheses all around and the other is not.
  induction w with
  | name hname =>
      cases v with
      | name hname' => rfl
      | group inner => cases groups_eq h
  | number n =>
      cases v with
      | number n => rfl
      | group inner => cases groups_eq h
  | group inner ih =>
      cases v with
      | group inner' =>
          have hinner := List.append_cancel_right (List.cons.inj h).2
          rw [ih hinner]
      | _ => cases groups_eq h
  | call hname first rest ihfirst ihrest =>
      cases v with
      | call hname' first' rest' =>
          obtain ⟨hfirst, hbehind⟩ := split_text rfl h
          have hlist := (List.cons.inj (List.append_cancel_left hbehind)).2
          rw [ihfirst hfirst, ihrest (List.append_cancel_right hlist)]
      | group inner => cases groups_eq h
  | index first inner ihfirst ihinner =>
      cases v with
      | index first' inner' =>
          obtain ⟨hfirst, hbehind⟩ := split_text rfl h
          rw [ihfirst hfirst, ihinner (List.append_cancel_right hbehind)]
      | group inner => cases groups_eq h
  | length first ih =>
      cases v with
      | length first' => rw [ih (List.append_cancel_right h)]
      | group inner => cases groups_eq h
  | unary op operand ih =>
      cases v with
      | unary op operand' => rw [ih (List.append_cancel_left h)]
      | group inner => cases groups_eq h
  | binary op left right ihleft ihright =>
      cases v with
      | binary op left' right' =>
          obtain ⟨c, cs, hsymbol, hc⟩ : ∃ c cs, op.symbol.toList = c :: cs ∧ isPlain c = true := by
            cases op <;> exact ⟨_, _, rfl, rfl⟩
          simp only [Writing.text, hsymbol, List.nil_append, List.append_nil] at h
          obtain ⟨hleft, hbehind⟩ := split_text hc h
          rw [ihleft hleft, ihright (List.append_cancel_left hbehind)]
      | group inner => cases groups_eq h
  | store left right ihleft ihright =>
      cases v with
      | store left' right' =>
          obtain ⟨hleft, hright⟩ := split_text rfl h
          rw [ihleft hleft, ihright hright]
      | group inner => cases groups_eq h
  | noArguments =>
      cases v
      rfl
  | lastArgument only ih =>
      cases v with
      | lastArgument only' => rw [ih h]
  | moreArguments first rest ihfirst ihrest =>
      cases v with
      | moreArguments first' rest' =>
          obtain ⟨hfirst, hrest⟩ := split_text rfl h
          rw [ihfirst hfirst, ihrest hrest]

/-- Some sound writing of a phrase has the spelling of its tokens. -/
def IsWritten (α : Alphabet) : Phrase → List Token → Prop
  | .term k t, ts =>
      ∃ w : Writing α (.term t), k ≤ w.level ∧ w.Sound ∧ w.text [] = ts.flatMap Token.spell
  | .arguments args, ts =>
      ∃ w : Writing α (.arguments args), w.Sound ∧ w.text [] = ts.flatMap Token.spell

theorem spell_prefixToken (op : UnaryOp) : (prefixToken op).spell = op.symbol.toList := by
  cases op <;> rfl

/-- Every derivation is a sound writing. -/
theorem isWritten_of_derives {phrase : Phrase} {ts : List Token} (h : Derives phrase ts)
    (hnames : ∀ x, Token.word x ∈ ts → IsName α x) : IsWritten α phrase ts := by
  induction h with
  | name x =>
      exact ⟨.name (hnames x List.mem_cons_self), Nat.le_refl _, trivial, by
        simp [Writing.text, Token.spell]⟩
  | number n =>
      exact ⟨.number n, Nat.le_refl _, trivial, by simp [Writing.text, Token.spell]⟩
  | group inner ih =>
      obtain ⟨w, hlevel, hsound, htext⟩ := ih fun x hx => hnames x (by simp [hx])
      refine ⟨.group w, Nat.le_refl _, ⟨hlevel, hsound⟩, ?_⟩
      simp [Writing.text, Token.spell, htext]
  | call method first rest ihfirst ihrest =>
      obtain ⟨w, hlevel, hsound, htext⟩ := ihfirst fun x hx => hnames x (by simp [hx])
      obtain ⟨v, hsound', htext'⟩ := ihrest fun x hx => hnames x (by simp [hx])
      have hname := hnames method (by simp)
      refine ⟨.call hname w v, Nat.le_refl _, ⟨hlevel, hsound, hsound'⟩, ?_⟩
      simp [Writing.text, Token.spell, htext, htext']
  | index first inner ihfirst ihinner =>
      obtain ⟨w, hlevel, hsound, htext⟩ := ihfirst fun x hx => hnames x (by simp [hx])
      obtain ⟨v, hlevel', hsound', htext'⟩ := ihinner fun x hx => hnames x (by simp [hx])
      refine ⟨.index w v, Nat.le_refl _, ⟨⟨hlevel, hsound⟩, hlevel', hsound'⟩, ?_⟩
      simp [Writing.text, Token.spell, htext, htext']
  | length first ih =>
      obtain ⟨w, hlevel, hsound, htext⟩ := ih fun x hx => hnames x (by simp [hx])
      refine ⟨.length w, Nat.le_refl _, ⟨hlevel, hsound⟩, ?_⟩
      simp [Writing.text, Token.spell, htext]
  | unary op operand ih =>
      obtain ⟨w, hlevel, hsound, htext⟩ := ih fun x hx => hnames x (by simp [hx])
      refine ⟨.unary op w, Nat.le_refl _, ⟨hlevel, hsound⟩, ?_⟩
      simp [Writing.text, spell_prefixToken, htext]
  | binary op left right ihleft ihright =>
      obtain ⟨w, hlevel, hsound, htext⟩ := ihleft fun x hx => hnames x (by simp [hx])
      obtain ⟨v, hlevel', hsound', htext'⟩ := ihright fun x hx => hnames x (by simp [hx])
      refine ⟨.binary op w v, Nat.le_refl _, ⟨⟨hlevel, hsound⟩, hlevel', hsound'⟩, ?_⟩
      simp [Writing.text, Token.spell, htext, htext']
  | store left right ihleft ihright =>
      obtain ⟨w, hlevel, hsound, htext⟩ := ihleft fun x hx => hnames x (by simp [hx])
      obtain ⟨v, hlevel', hsound', htext'⟩ := ihright fun x hx => hnames x (by simp [hx])
      refine ⟨.store w v, Nat.le_refl _, ⟨⟨hlevel, hsound⟩, hlevel', hsound'⟩, ?_⟩
      simp [Writing.text, Token.spell, htext, htext']
  | weaken hle tighter ih =>
      obtain ⟨w, hlevel, hsound, htext⟩ := ih hnames
      exact ⟨w, Nat.le_trans hle hlevel, hsound, htext⟩
  | noArguments => exact ⟨.noArguments, trivial, rfl⟩
  | lastArgument only ih =>
      obtain ⟨w, hlevel, hsound, htext⟩ := ih hnames
      exact ⟨.lastArgument w, ⟨hlevel, hsound⟩, htext⟩
  | moreArguments first rest ihfirst ihrest =>
      obtain ⟨w, hlevel, hsound, htext⟩ := ihfirst fun x hx => hnames x (by simp [hx])
      obtain ⟨v, hsound', htext'⟩ := ihrest fun x hx => hnames x (by simp [hx])
      refine ⟨.moreArguments w v, ⟨⟨hlevel, hsound⟩, hsound'⟩, ?_⟩
      simp [Writing.text, Token.spell, htext, htext']

end FragmentSynthesis.Proofs.Writings
