import FragmentSynthesis.Proofs.ReadingBack
import FragmentSynthesis.Proofs.Writings

/-!
No pair of parentheses in the text of an expression can be left out. Each stands around a term that
binds looser than its place asks for, or keeps two equal signs apart. Without a pair of the first
sort the text is still a writing of the same term, but one that is not sound. Since its characters
determine a writing, no derivation of that term has these characters.
-/

namespace FragmentSynthesis.Proofs.NeededParentheses

open FragmentSynthesis.Components
open FragmentSynthesis.Expression
open FragmentSynthesis.ExpressionText
open FragmentSynthesis.Operators
open FragmentSynthesis.Proofs.BalancedText
open FragmentSynthesis.Proofs.ReadingBack
open FragmentSynthesis.Proofs.SourceGrammar
open FragmentSynthesis.Proofs.SourceTokens
open FragmentSynthesis.Proofs.Writings
open FragmentSynthesis.TypeName

/-- A text has a pair of parentheses around a part of it. No name stands in front of them, or they
would enclose arguments. -/
structure Pair (α : Alphabet) (text a b c : List Char) : Prop where
  eq : text = a ++ '(' :: (b ++ ')' :: c)
  balanced : Balanced b
  grouping : ∀ d ∈ a.getLast?, α.isPart d = false

/-- A call, a length or an index of the term in front follows. -/
def GoesOn (cs : List Char) : Prop :=
  cs.head? = some '.' ∨ cs.head? = some '['

instance (cs : List Char) : Decidable (GoesOn cs) :=
  inferInstanceAs (Decidable (_ ∨ _))

/-- A pair of parentheses around the operand of a prefix operator that begins with the operator's
own sign. The operand does not go on behind them. -/
def AroundSign (a b c : List Char) : Prop :=
  ∃ op : UnaryOp, op.symbol.toList <:+ a ∧ op.symbol.toList <+: b ∧ ¬ GoesOn c

variable {α : Alphabet} {a b c xs ys : List Char}

theorem grouping_of_append (xs : List Char)
    (h : ∀ d ∈ (xs ++ a).getLast?, α.isPart d = false) : ∀ d ∈ a.getLast?, α.isPart d = false := by
  intro d hd
  refine h d ?_
  rw [List.getLast?_append, Option.mem_def.mp hd]
  rfl

theorem Pair.append (hxs : Balanced xs) (h : Pair α (xs ++ ys) a b c) :
    (∃ d, c = d ++ ys ∧ Pair α xs a b d) ∨ ∃ d, a = xs ++ d ∧ Pair α ys d b c := by
  obtain ⟨heq, hbalanced, hgrouping⟩ := h
  rcases hxs.pair_append hbalanced heq with ⟨d, hfirst, hc⟩ | ⟨d, rfl, hsecond⟩
  · exact .inl ⟨d, hc, hfirst, hbalanced, hgrouping⟩
  · exact .inr ⟨d, rfl, hsecond, hbalanced, grouping_of_append xs hgrouping⟩

theorem Pair.enclosed (hxs : Balanced xs) (h : Pair α ('(' :: (xs ++ [')'])) a b c) :
    (a = [] ∧ b = xs ∧ c = []) ∨ ∃ d e, a = '(' :: d ∧ c = e ++ [')'] ∧ Pair α xs d b e := by
  obtain ⟨heq, hbalanced, hgrouping⟩ := h
  rcases hxs.pair_enclosed hbalanced heq with hall | ⟨d, e, rfl, hc, hinner⟩
  · exact .inl hall
  · exact .inr ⟨d, e, rfl, hc, hinner, hbalanced, grouping_of_append ['('] hgrouping⟩

theorem Pair.not_plain (h : Pair α xs a b c) (hxs : ∀ d ∈ xs, isPlain d = true) : False := by
  have hopen : '(' ∈ xs := h.eq ▸ List.mem_append_right a List.mem_cons_self
  exact Bool.false_ne_true (hxs '(' hopen)

theorem Pair.behind (hxs : ∀ d ∈ xs, isPlain d = true) (h : Pair α (xs ++ ys) a b c) :
    ∃ d, a = xs ++ d ∧ Pair α ys d b c := by
  rcases h.append (balanced_of_plain hxs) with ⟨d, -, hfirst⟩ | hsecond
  · exact (hfirst.not_plain hxs).elim
  · exact hsecond

theorem Pair.before (hxs : Balanced xs) (hys : ∀ d ∈ ys, isPlain d = true)
    (h : Pair α (xs ++ ys) a b c) : ∃ d, c = d ++ ys ∧ Pair α xs a b d := by
  rcases h.append hxs with hfirst | ⟨d, -, hsecond⟩
  · exact hfirst
  · exact (hsecond.not_plain hys).elim

theorem AroundSign.prepend (h : AroundSign a b c) : AroundSign (xs ++ a) b c := by
  obtain ⟨op, hbefore, hinside, hbehind⟩ := h
  exact ⟨op, hbefore.trans (List.suffix_append xs a), hinside, hbehind⟩

theorem AroundSign.append (h : AroundSign a b c) (hys : c = [] → ¬ GoesOn ys) :
    AroundSign a b (c ++ ys) := by
  obtain ⟨op, hbefore, hinside, hbehind⟩ := h
  refine ⟨op, hbefore, hinside, ?_⟩
  cases c with
  | nil => exact hys rfl
  | cons e c => exact hbehind

/-- If a writing stands in parentheses, then since it binds looser without them than its place asks
for, or since it begins with the sign in front of it. -/
def NeedsGroup (k : Nat) (sign : Option UnaryOp) {t : Tree} (w : Writing α (.term t)) : Prop :=
  ∀ inner, w = .group inner →
    inner.level < k ∨ ∃ op ∈ sign, op.symbol.toList <+: inner.text [' ']

/-- Only parts that need parentheses have any. -/
def Sparing {s : Subject} (w : Writing α s) : Prop :=
  w.Throughout fun k sign part => NeedsGroup k sign part

theorem plain_blank : ∀ d ∈ [' '], isPlain d = true :=
  List.forall_mem_singleton.mpr rfl

/-- Without a pair of its parentheses a writing is no longer a sound one that binds as tight as its
place asks for, unless the pair keeps two equal signs apart. -/
def Spoils (k : Nat) {s : Subject} (w : Writing α s) (a b c : List Char) : Prop :=
  (∃ v : Writing α s, v.text [' '] = a ++ (b ++ c) ∧ ¬ (k ≤ v.level ∧ v.Sound)) ∨
    AroundSign a b c ∧ (c = [] → w.level < Precedence.dot.level)

/-- Every pair spoils a writing, other than one around all of it. -/
def Tight {s : Subject} (w : Writing α s) : Prop :=
  ∀ a b c, Pair α (w.text [' ']) a b c → (a = [] → w.groups = 0) → Spoils 0 w a b c

variable {t : Tree} {w : Writing α (.term t)} {k : Nat} {sign : Option UnaryOp}

theorem Spoils.inPlace (h : Spoils 0 w a b c) (k : Nat) : Spoils k w a b c := by
  rcases h with ⟨v, htext, hsound⟩ | hsign
  · exact .inl ⟨v, htext, fun ⟨_, hv⟩ => hsound ⟨Nat.zero_le _, hv⟩⟩
  · exact .inr hsign

theorem Tight.inPlace (hw : Tight w) (hplace : NeedsGroup k sign w)
    (h : Pair α (w.text [' ']) a b c) :
    Spoils k w a b c ∨ a = [] ∧ c = [] ∧ ∃ op ∈ sign, op.symbol.toList <+: b := by
  by_cases ha : a = []
  · cases w with
    | group inner =>
        subst ha
        rcases h.enclosed (balanced_text plain_blank inner) with ⟨-, rfl, rfl⟩ | ⟨d, e, hd, -, -⟩
        · rcases hplace inner rfl with hloose | hsign
          · exact .inl (.inl ⟨inner, by simp, fun hv => absurd hv.1 (Nat.not_le_of_lt hloose)⟩)
          · exact .inr ⟨rfl, rfl, hsign⟩
        · cases hd
    | _ => exact .inl ((hw a b c h fun _ => rfl).inPlace k)
  · exact .inl ((hw a b c h fun hnil => absurd hnil ha).inPlace k)

theorem Tight.inBarePlace (hw : Tight w) (hplace : NeedsGroup k none w)
    (h : Pair α (w.text [' ']) a b c) : Spoils k w a b c := by
  rcases hw.inPlace hplace h with hspoils | ⟨-, -, op, hop, -⟩
  · exact hspoils
  · cases hop

theorem Spoils.within {s r : Subject} {part : Writing α s} {whole : Writing α r}
    (h : Spoils k part a b c) (put : Writing α s → Writing α r) (xs ys : List Char)
    {before behind : List Char} (hbefore : before = xs ++ a) (hbehind : behind = c ++ ys)
    (htext : ∀ v, (put v).text [' '] = xs ++ (v.text [' '] ++ ys))
    (hsound : ∀ v, (put v).Sound → k ≤ v.level ∧ v.Sound)
    (hlast : ys = [] → whole.level < Precedence.dot.level)
    (hnext : Precedence.dot.level ≤ part.level ∨ ¬ GoesOn ys) :
    Spoils 0 whole before b behind := by
  subst hbefore hbehind
  rcases h with ⟨v, hv, hspoilt⟩ | ⟨hsign, hlevel⟩
  · exact .inl ⟨put v, by simp [htext, hv], fun hput => hspoilt (hsound v hput.2)⟩
  · have haround : AroundSign a b (c ++ ys) := hsign.append fun hc =>
      hnext.resolve_left fun hdot => absurd (hlevel hc) (Nat.not_lt_of_le hdot)
    exact .inr ⟨haround.prepend, fun hnil => hlast (List.append_eq_nil_iff.mp hnil).2⟩

theorem groups_arguments {args : List Tree} (w : Writing α (.arguments args)) : w.groups = 0 := by
  cases w <;> rfl

theorem balanced_shown {s : Subject} (w : Writing α s) : Balanced (w.text [' ']) :=
  balanced_text plain_blank w

theorem Tight.group {t : Tree} {inner : Writing α (.term t)} (h : Tight inner)
    (hplace : NeedsGroup Precedence.assignment.level none inner) : Tight (.group inner) := by
  intro a b c hpair hroot
  rcases hpair.enclosed (balanced_shown inner) with ⟨ha, -, -⟩ | ⟨d, e, rfl, rfl, hinside⟩
  · cases hroot ha
  · exact (h.inBarePlace hplace hinside).within .group ['('] [')'] rfl rfl (fun _ => rfl)
      (fun _ hv => hv) (by simp) (.inr (by decide))

theorem exists_lastPart {x : String} (h : IsName α x) :
    ∃ d, x.toList.getLast? = some d ∧ α.isPart d = true := by
  obtain ⟨c, cs, hx, -⟩ := h.eq_cons
  have hne : x.toList ≠ [] := hx ▸ List.cons_ne_nil c cs
  exact ⟨_, List.getLast?_eq_some_getLast hne,
    List.all_eq_true.mp h.2 _ (List.getLast_mem hne)⟩

/-- The parentheses around arguments are no pair, since a name stands in front of them. -/
theorem Tight.call {receiver : Tree} {args : List Tree} {method : String}
    {hname : IsName α method} {first : Writing α (.term receiver)}
    {rest : Writing α (.arguments args)} (hfirst : Tight first) (hrest : Tight rest)
    (hplace : NeedsGroup Precedence.dot.level none first)
    (hlevel : Precedence.dot.level ≤ first.level) : Tight (.call hname first rest) := by
  intro a b c hpair _
  have hgrouping := hpair.grouping
  rcases hpair.append (balanced_shown first) with ⟨d, rfl, hfront⟩ | ⟨d, rfl, hback⟩
  · exact (hfirst.inBarePlace hplace hfront).within (.call hname · rest) [] _ rfl rfl
      (fun _ => rfl) (fun _ hv => ⟨hv.1, hv.2.1⟩) (by simp) (.inl hlevel)
  · have hmember : ∀ d ∈ '.' :: method.toList, isPlain d = true :=
      List.forall_mem_cons.mpr ⟨rfl, plain_name hname⟩
    obtain ⟨e, rfl, harguments⟩ := Pair.behind hmember hback
    rcases harguments.enclosed (balanced_shown rest) with ⟨rfl, -, -⟩ | ⟨f, g, rfl, rfl, hinside⟩
    · obtain ⟨d, hlast, hpart⟩ := exists_lastPart hname
      have hnone := hgrouping d (by simp [List.getLast?_append, List.getLast?_cons, hlast])
      rw [hpart] at hnone
      cases hnone
    · refine (hrest f b g hinside fun _ => groups_arguments rest).within (.call hname first ·)
        (first.text [' '] ++ ('.' :: method.toList ++ ['('])) [')'] (by simp) rfl ?_
        (fun _ hv => ⟨Nat.zero_le _, hv.2.2⟩) (by simp) (.inr (by decide))
      intro v
      simp [Writing.text]

theorem Tight.index {array i : Tree} {first : Writing α (.term array)}
    {inner : Writing α (.term i)} (hfirst : Tight first) (hinner : Tight inner)
    (hplace : NeedsGroup Precedence.dot.level none first)
    (hlevel : Precedence.dot.level ≤ first.level)
    (hplace' : NeedsGroup Precedence.assignment.level none inner) :
    Tight (.index first inner) := by
  intro a b c hpair _
  rcases hpair.append (balanced_shown first) with ⟨d, rfl, hfront⟩ | ⟨d, rfl, hback⟩
  · exact (hfirst.inBarePlace hplace hfront).within (.index · inner) [] _ rfl rfl
      (fun _ => rfl) (fun _ hv => hv.1) (by simp) (.inl hlevel)
  · have hopen : ∀ d ∈ ['['], isPlain d = true := List.forall_mem_singleton.mpr rfl
    have hclose : ∀ d ∈ [']'], isPlain d = true := List.forall_mem_singleton.mpr rfl
    obtain ⟨e, rfl, hrest⟩ := Pair.behind hopen hback
    obtain ⟨f, rfl, hinside⟩ := hrest.before (balanced_shown inner) hclose
    refine (hinner.inBarePlace hplace' hinside).within (.index first ·)
      (first.text [' '] ++ ['[']) [']'] (by simp) rfl ?_ (fun _ hv => hv.2) (by simp)
      (.inr (by decide))
    intro v
    simp [Writing.text]

theorem Tight.length {array : Tree} {first : Writing α (.term array)} (hfirst : Tight first)
    (hplace : NeedsGroup Precedence.dot.level none first)
    (hlevel : Precedence.dot.level ≤ first.level) : Tight (.length first) := by
  intro a b c hpair _
  obtain ⟨d, rfl, hfront⟩ := hpair.before (balanced_shown first) plain_length
  exact (hfirst.inBarePlace hplace hfront).within .length [] _ rfl rfl (fun _ => rfl)
    (fun _ hv => hv) (by simp) (.inl hlevel)

/-- Behind a prefix operator a pair may also keep two equal signs apart. -/
theorem Tight.unary {t : Tree} {operand : Writing α (.term t)} (h : Tight operand) (op : UnaryOp)
    (hplace : NeedsGroup Precedence.unary.level (some op) operand) :
    Tight (.unary op operand) := by
  intro a b c hpair _
  have hlevel : Precedence.unary.level < Precedence.dot.level := by decide
  obtain ⟨d, rfl, hback⟩ := hpair.behind (plain_unary op)
  rcases h.inPlace hplace hback with hspoils | ⟨rfl, rfl, op', hop, hbegins⟩
  · exact hspoils.within (.unary op ·) op.symbol.toList [] rfl (by simp)
      (fun v => by simp [Writing.text]) (fun _ hv => hv) (fun _ => hlevel) (.inr (by simp [GoesOn]))
  · cases hop
    refine .inr ⟨⟨op, ?_, hbegins, by decide⟩, fun _ => hlevel⟩
    rw [List.append_nil]

theorem Tight.binary {t u : Tree} {left : Writing α (.term t)} {right : Writing α (.term u)}
    (hleft : Tight left) (hright : Tight right) (op : BinaryOp)
    (hplace : NeedsGroup op.precedence.level none left)
    (hplace' : NeedsGroup (op.precedence.level + 1) none right) :
    Tight (.binary op left right) := by
  intro a b c hpair _
  rcases hpair.append (balanced_shown left) with ⟨d, rfl, hfront⟩ | ⟨d, rfl, hback⟩
  · exact (hleft.inBarePlace hplace hfront).within (.binary op · right) [] _ rfl rfl
      (fun _ => rfl) (fun _ hv => hv.1) (by simp) (.inr (by simp [GoesOn]))
  · have hsign : ∀ d ∈ [' '] ++ op.symbol.toList ++ [' '], isPlain d = true :=
      List.forall_mem_append.mpr
        ⟨List.forall_mem_append.mpr ⟨plain_blank, plain_binary op⟩, plain_blank⟩
    obtain ⟨e, rfl, hinside⟩ := Pair.behind hsign hback
    refine (hright.inBarePlace hplace' hinside).within (.binary op left ·)
      (left.text [' '] ++ ([' '] ++ op.symbol.toList ++ [' '])) [] (by simp) (by simp) ?_
      (fun _ hv => hv.2) (fun _ => ?_) (.inr (by simp [GoesOn]))
    · intro v
      simp [Writing.text]
    · exact Nat.lt_trans (level_lt op).2 (by decide)

theorem Tight.store {array i value : Tree} {left : Writing α (.term (.index array i))}
    {right : Writing α (.term value)} (hleft : Tight left) (hright : Tight right)
    (hplace : NeedsGroup Precedence.dot.level none left)
    (hplace' : NeedsGroup Precedence.assignment.level none right) : Tight (.store left right) := by
  intro a b c hpair _
  rcases hpair.append (balanced_shown left) with ⟨d, rfl, hfront⟩ | ⟨d, rfl, hback⟩
  · exact (hleft.inBarePlace hplace hfront).within (.store · right) [] _ rfl rfl
      (fun _ => rfl) (fun _ hv => hv.1) (by simp) (.inr (by simp [GoesOn]))
  · have hlevel : Precedence.assignment.level < Precedence.dot.level := by decide
    have hsign : ∀ d ∈ [' ', '=', ' '], isPlain d = true := by simp [isPlain]
    obtain ⟨e, rfl, hinside⟩ := Pair.behind hsign hback
    refine (hright.inBarePlace hplace' hinside).within (.store left ·)
      (left.text [' '] ++ [' ', '=', ' ']) [] (by simp) (by simp) ?_ (fun _ hv => hv.2)
      (fun _ => hlevel) (.inr (by simp [GoesOn]))
    intro v
    simp [Writing.text]

theorem Tight.lastArgument {t : Tree} {only : Writing α (.term t)} (h : Tight only)
    (hplace : NeedsGroup Precedence.assignment.level none only) : Tight (.lastArgument only) := by
  intro a b c hpair _
  exact (h.inBarePlace hplace hpair).within .lastArgument [] [] rfl (by simp)
    (fun v => by simp [Writing.text]) (fun _ hv => hv) (fun _ => Nat.succ_pos _)
    (.inr (by simp [GoesOn]))

theorem Tight.moreArguments {t u : Tree} {args : List Tree} {first : Writing α (.term t)}
    {rest : Writing α (.arguments (u :: args))} (hfirst : Tight first) (hrest : Tight rest)
    (hplace : NeedsGroup Precedence.assignment.level none first) :
    Tight (.moreArguments first rest) := by
  intro a b c hpair _
  rcases hpair.append (balanced_shown first) with ⟨d, rfl, hfront⟩ | ⟨d, rfl, hback⟩
  · exact (hfirst.inBarePlace hplace hfront).within (.moreArguments · rest) [] _ rfl rfl
      (fun _ => rfl) (fun _ hv => hv.1) (by simp) (.inr (by simp [GoesOn]))
  · have hcomma : ∀ d ∈ [',', ' '], isPlain d = true := by simp [isPlain]
    obtain ⟨e, rfl, hinside⟩ := Pair.behind hcomma hback
    refine (hrest e b c hinside fun _ => groups_arguments rest).within (.moreArguments first ·)
      (first.text [' '] ++ [',', ' ']) [] (by simp) (by simp) ?_
      (fun _ hv => ⟨Nat.zero_le _, hv.2⟩) (fun _ => Nat.succ_pos _) (.inr (by simp [GoesOn]))
    intro v
    simp [Writing.text]

/-- Sparing writings are tight. -/
theorem tight_of_sparing {s : Subject} (w : Writing α s) (hsound : w.Sound) (hsparing : Sparing w) :
    Tight w := by
  induction w with
  | name hname => exact fun a b c h _ => (h.not_plain (plain_name hname)).elim
  | number n => exact fun a b c h _ => (h.not_plain (plain_number n)).elim
  | group inner ih => exact (ih hsound.2 hsparing.2).group hsparing.1
  | call hname first rest ihfirst ihrest =>
      obtain ⟨hlevel, hfirst, hrest⟩ := hsound
      obtain ⟨hplace, hfirst', hrest'⟩ := hsparing
      exact (ihfirst hfirst hfirst').call (ihrest hrest hrest') hplace hlevel
  | index first inner ihfirst ihinner =>
      obtain ⟨⟨hlevel, hfirst⟩, -, hinner⟩ := hsound
      obtain ⟨⟨hplace, hfirst'⟩, hplace', hinner'⟩ := hsparing
      exact (ihfirst hfirst hfirst').index (ihinner hinner hinner') hplace hlevel hplace'
  | length first ih => exact (ih hsound.2 hsparing.2).length hsparing.1 hsound.1
  | unary op operand ih => exact (ih hsound.2 hsparing.2).unary op hsparing.1
  | binary op left right ihleft ihright =>
      obtain ⟨⟨-, hleft⟩, -, hright⟩ := hsound
      obtain ⟨⟨hplace, hleft'⟩, hplace', hright'⟩ := hsparing
      exact (ihleft hleft hleft').binary (ihright hright hright') op hplace hplace'
  | store left right ihleft ihright =>
      obtain ⟨⟨-, hleft⟩, -, hright⟩ := hsound
      obtain ⟨⟨hplace, hleft'⟩, hplace', hright'⟩ := hsparing
      exact (ihleft hleft hleft').store (ihright hright hright') hplace hplace'
  | noArguments => exact fun a b c h _ => (h.not_plain (List.forall_mem_nil _)).elim
  | lastArgument only ih => exact (ih hsound.2 hsparing.2).lastArgument hsparing.1
  | moreArguments first rest ihfirst ihrest =>
      obtain ⟨⟨-, hfirst⟩, hrest⟩ := hsound
      obtain ⟨⟨hplace, hfirst'⟩, hrest'⟩ := hsparing
      exact (ihfirst hfirst hfirst').moreArguments (ihrest hrest hrest') hplace

/-- A text shows a sound writing that is sparing with parentheses. -/
structure Shows {s : Subject} (w : Writing α s) (text : String) : Prop where
  eq : text.toList = w.text [' ']
  sound : w.Sound
  sparing : Sparing w

/-- The same for a writing in a place of some level. -/
structure ShowsInPlace (k : Nat) (sign : Option UnaryOp) {t : Tree} (w : Writing α (.term t))
    (text : String) : Prop where
  shows : Shows w text
  level : k ≤ w.level
  needed : NeedsGroup k sign w

/-- The text of an expression shows a writing of its tree that binds as the precedence says. -/
def Shown (α : Alphabet) (style : NameStyle) (e : Expr) : Prop :=
  ∃ (p : Precedence) (text : String) (w : Writing α (.term (tree style e))),
    precedence e = .ok p ∧ render style e = .ok text ∧ Shows w text ∧ w.level = p.level ∧
      w.groups = 0

theorem needsGroup_of_groups (h : w.groups = 0) (k : Nat) (sign : Option UnaryOp) :
    NeedsGroup k sign w := by
  rintro inner rfl
  cases h

theorem exists_precedence {t : Tree} (w : Writing α (.term t)) :
    ∃ p : Precedence, w.level = p.level := by
  cases w with
  | name | number | group => exact ⟨.atom, rfl⟩
  | call | index | length => exact ⟨.dot, rfl⟩
  | unary => exact ⟨.unary, rfl⟩
  | binary op => exact ⟨op.precedence, rfl⟩
  | store => exact ⟨.assignment, rfl⟩

theorem assignment_le_level (w : Writing α (.term t)) : Precedence.assignment.level ≤ w.level := by
  obtain ⟨p, hp⟩ := exists_precedence w
  rw [hp]
  exact (level_bounds p).1

/-- Parentheses are put around a term just if its place asks for them. -/
theorem Shows.inPlace {text : String} (h : Shows w text) (hgroups : w.groups = 0) (k : Nat)
    (sign : Option UnaryOp) (parens : Bool) (hk : k ≤ Precedence.atom.level)
    (hbare : parens = false → k ≤ w.level)
    (hneeded : parens = true → w.level < k ∨ ∃ op ∈ sign, op.symbol.toList <+: w.text [' ']) :
    ∃ v : Writing α (.term t), ShowsInPlace k sign v (wrap parens text) := by
  cases parens with
  | false => exact ⟨w, h, hbare rfl, needsGroup_of_groups hgroups k sign⟩
  | true =>
      refine ⟨.group w, ⟨?_, ?_, ?_⟩, hk, ?_⟩
      · simp [wrap, Writing.text, h.eq]
      · exact ⟨assignment_le_level w, h.sound⟩
      · exact ⟨needsGroup_of_groups hgroups _ _, h.sparing⟩
      · rintro inner ⟨⟩
        exact hneeded rfl

variable {style : NameStyle} {e : Expr}

theorem Shown.left (h : Shown α style e) {p : Precedence} (hp : p.rightAssociative = false) :
    ∃ (text : String) (w : Writing α (.term (tree style e))),
      leftText p (precedence e) (render style e) = .ok text ∧ ShowsInPlace p.level none w text := by
  obtain ⟨child, text, w, hchild, htext, hshows, hlevel, hgroups⟩ := h
  have hparens : p.parenLeft child = decide (child.level < p.level) := by
    simp [Precedence.parenLeft, hp]
  obtain ⟨v, hv⟩ := hshows.inPlace hgroups p.level none (p.parenLeft child) (level_bounds p).2
    (by simp [hparens, hlevel]) (by simp [hparens, hlevel])
  rw [hchild, htext]
  exact ⟨_, v, rfl, hv⟩

theorem Shown.right (h : Shown α style e) (op : BinaryOp) :
    ∃ (text : String) (w : Writing α (.term (tree style e))),
      rightText op.precedence (precedence e) (render style e) = .ok text ∧
        ShowsInPlace (op.precedence.level + 1) none w text := by
  obtain ⟨child, text, w, hchild, htext, hshows, hlevel, hgroups⟩ := h
  have hleft : op.precedence.rightAssociative = false := by cases op <;> rfl
  have hparens : op.precedence.parenRight child =
      decide (child.level < op.precedence.level + 1) := by
    simp only [Precedence.parenRight, hleft, Bool.false_eq_true, if_false, Nat.lt_succ_iff]
  have hatom : op.precedence.level + 1 ≤ Precedence.atom.level :=
    Nat.le_trans (level_lt op).2 (by decide)
  obtain ⟨v, hv⟩ := hshows.inPlace hgroups (op.precedence.level + 1) none
    (op.precedence.parenRight child) hatom (by simp [hparens, hlevel]) (by simp [hparens, hlevel])
  rw [hchild, htext]
  exact ⟨_, v, rfl, hv⟩

theorem Shown.operand (h : Shown α style e) (op : UnaryOp) :
    ∃ (text : String) (w : Writing α (.term (tree style e))),
      operandText op (precedence e) (render style e) = .ok text ∧
        ShowsInPlace Precedence.unary.level (some op) w text := by
  obtain ⟨child, text, w, hchild, htext, hshows, hlevel, hgroups⟩ := h
  have hparens : Precedence.unary.parenRight child =
      decide (child.level < Precedence.unary.level) := rfl
  have hsign : text.startsWith op.symbol = true → op.symbol.toList <+: w.text [' '] :=
    fun h => hshows.eq ▸ String.startsWith_string_iff.mp h
  obtain ⟨v, hv⟩ := hshows.inPlace hgroups Precedence.unary.level (some op)
    (Precedence.unary.parenRight child || text.startsWith op.symbol) (level_bounds .unary).2
    (fun hbare => by
      have hchild := (Bool.or_eq_false_iff.mp hbare).1
      simpa [hparens, hlevel] using hchild)
    (fun hwrapped => (Bool.or_eq_true_iff.mp hwrapped).imp
      (fun hloose => by simpa [hparens, hlevel] using hloose)
      (fun hbegins => ⟨op, rfl, hsign hbegins⟩))
  rw [hchild, htext]
  exact ⟨_, v, rfl, hv⟩

theorem Shown.bare (h : Shown α style e) :
    ∃ (text : String) (w : Writing α (.term (tree style e))), render style e = .ok text ∧
      ShowsInPlace Precedence.assignment.level none w text := by
  obtain ⟨-, text, w, -, htext, hshows, -, hgroups⟩ := h
  exact ⟨text, w, htext, hshows, assignment_le_level w, needsGroup_of_groups hgroups _ _⟩

theorem exists_arguments {args : List Expr} (h : ∀ arg ∈ args, Shown α style arg) :
    ∃ (texts : List String) (w : Writing α (.arguments (trees style args))),
      ExpressionText.sequence (renderEach style args) = .ok texts ∧
        Shows w (", ".intercalate texts) := by
  induction args with
  | nil => exact ⟨[], .noArguments, rfl, rfl, trivial, trivial⟩
  | cons arg rest ih =>
      obtain ⟨hfirst, hothers⟩ := List.forall_mem_cons.mp h
      obtain ⟨text, w, htext, hshows, hlevel, hneeded⟩ := hfirst.bare
      obtain ⟨texts, v, htexts, hrest⟩ := ih hothers
      have hsequence := sequence_renderEach_cons htext htexts
      cases rest with
      | nil =>
          obtain rfl : [] = texts := Except.ok.inj htexts
          refine ⟨_, .lastArgument w, hsequence, ?_, ⟨hlevel, hshows.sound⟩,
            ⟨hneeded, hshows.sparing⟩⟩
          rw [String.intercalate_singleton]
          exact hshows.eq
      | cons next rest =>
          obtain ⟨other, -, hother, -⟩ := (hothers next List.mem_cons_self).bare
          obtain ⟨others, rfl⟩ := exists_texts_cons hother htexts
          refine ⟨_, .moreArguments w v, hsequence, ?_, ⟨⟨hlevel, hshows.sound⟩, hrest.sound⟩,
            ⟨⟨hneeded, hshows.sparing⟩, hrest.sparing⟩⟩
          rw [String.intercalate_cons_cons]
          simp [Writing.text, hshows.eq, hrest.eq]
          rfl

theorem shown_number (n : Int) : Shown α style (.literal (.int n) int) := by
  cases n with
  | ofNat n =>
      have hprecedence : literalPrecedence (toString n) = .atom := by
        rw [literalPrecedence, startsWith_numeral]
        rfl
      refine ⟨.atom, toString n, .number n, congrArg Except.ok hprecedence, rfl, ?_, rfl, rfl⟩
      exact ⟨by simp [Writing.text], trivial, trivial⟩
  | negSucc n =>
      have hprecedence : literalPrecedence ("-" ++ toString (n + 1)) = .unary := by
        rw [literalPrecedence, startsWith_minus]
        rfl
      refine ⟨.unary, "-" ++ toString (n + 1), .unary .neg (.number (n + 1)),
        congrArg Except.ok hprecedence, rfl, ?_, rfl, rfl⟩
      have hlevel : Precedence.unary.level ≤ Precedence.atom.level := by decide
      refine ⟨?_, ⟨hlevel, trivial⟩, needsGroup_of_groups rfl _ _, trivial⟩
      simp [Writing.text, UnaryOp.symbol]

theorem Shown.unary (h : Shown α style e) (op : UnaryOp) : Shown α style (.unary op e) := by
  obtain ⟨text, w, htext, hshows, hlevel, hneeded⟩ := h.operand op
  refine ⟨.unary, op.symbol ++ text, .unary op w, rfl, ?_, ?_, rfl, rfl⟩
  · rw [render, htext]
    rfl
  · refine ⟨?_, ⟨hlevel, hshows.sound⟩, ⟨hneeded, hshows.sparing⟩⟩
    rw [String.toList_append, hshows.eq]
    rfl

theorem Shown.binary {left right : Expr} (hleft : Shown α style left)
    (hright : Shown α style right) (op : BinaryOp) : Shown α style (.binary op left right) := by
  have hassociative : op.precedence.rightAssociative = false := by cases op <;> rfl
  obtain ⟨text, w, htext, hshows, hlevel, hneeded⟩ := hleft.left hassociative
  obtain ⟨other, v, hother, hshows', hlevel', hneeded'⟩ := hright.right op
  refine ⟨op.precedence, text ++ " " ++ op.symbol ++ " " ++ other, .binary op w v, rfl, ?_, ?_,
    rfl, rfl⟩
  · rw [render, htext, hother]
    rfl
  · refine ⟨?_, ⟨⟨hlevel, hshows.sound⟩, hlevel', hshows'.sound⟩,
      ⟨⟨hneeded, hshows.sparing⟩, hneeded', hshows'.sparing⟩⟩
    simp [Writing.text, hshows.eq, hshows'.eq]

theorem Shown.call {component : Component} {receiver : Expr} {args : List Expr}
    (hkind : component.kind = .method) (hname : IsName α (component.displayName style))
    (h : Shown α style receiver) (hargs : ∀ arg ∈ args, Shown α style arg) :
    Shown α style (.use component (some receiver) args) := by
  obtain ⟨text, w, htext, hshows, hlevel, hneeded⟩ := h.left (p := .dot) rfl
  obtain ⟨texts, v, htexts, hlist⟩ := exists_arguments hargs
  refine ⟨.dot, text ++ "." ++ component.displayName style ++ "(" ++ ", ".intercalate texts ++ ")",
    .call hname w v, precedence_use hkind _ _, ?_, ?_, rfl, rfl⟩
  · simp only [render, useText, hkind, kindPrecedence, htext, htexts]
    rfl
  · refine ⟨?_, ⟨hlevel, hshows.sound, hlist.sound⟩, ⟨hneeded, hshows.sparing, hlist.sparing⟩⟩
    simp [Writing.text, hshows.eq, hlist.eq]

theorem Shown.get {component : Component} {array i : Expr} (hkind : component.kind = .arrayGet)
    (h : Shown α style array) (hi : Shown α style i) :
    Shown α style (.use component none [array, i]) := by
  obtain ⟨text, w, htext, hshows, hlevel, hneeded⟩ := h.left (p := .dot) rfl
  obtain ⟨inner, v, hinner, hshows', hlevel', hneeded'⟩ := hi.bare
  have htree : tree style (.use component none [array, i]) =
      .index (tree style array) (tree style i) := by
    rw [tree, hkind]
    rfl
  rw [Shown, htree]
  refine ⟨.dot, text ++ "[" ++ inner ++ "]", .index w v, precedence_use hkind _ _, ?_, ?_, rfl, rfl⟩
  · simp only [render, useText, hkind, renderEach, arrayText_cons, htext, hinner]
    rfl
  · refine ⟨?_, ⟨⟨hlevel, hshows.sound⟩, hlevel', hshows'.sound⟩,
      ⟨⟨hneeded, hshows.sparing⟩, hneeded', hshows'.sparing⟩⟩
    simp [Writing.text, hshows.eq, hshows'.eq]

theorem Shown.set {component : Component} {array i value : Expr}
    (hkind : component.kind = .arraySet) (h : Shown α style array) (hi : Shown α style i)
    (hvalue : Shown α style value) : Shown α style (.use component none [array, i, value]) := by
  obtain ⟨text, w, htext, hshows, hlevel, hneeded⟩ := h.left (p := .dot) rfl
  obtain ⟨inner, v, hinner, hshows', hlevel', hneeded'⟩ := hi.bare
  obtain ⟨written, u, hwritten, hshows'', hlevel'', hneeded''⟩ := hvalue.bare
  have htree : tree style (.use component none [array, i, value]) =
      .store (tree style array) (tree style i) (tree style value) := by
    rw [tree, hkind]
    rfl
  rw [Shown, htree]
  refine ⟨.assignment, text ++ "[" ++ inner ++ "] = " ++ written, .store (.index w v) u,
    precedence_use hkind _ _, ?_, ?_, rfl, rfl⟩
  · simp only [render, useText, hkind, renderEach, arrayText_cons, htext, hinner, hwritten]
    rfl
  · refine ⟨?_, ⟨⟨Nat.le_refl _, ⟨hlevel, hshows.sound⟩, hlevel', hshows'.sound⟩, hlevel'',
      hshows''.sound⟩, ⟨⟨needsGroup_of_groups rfl _ _, ⟨hneeded, hshows.sparing⟩, hneeded',
        hshows'.sparing⟩, hneeded'', hshows''.sparing⟩⟩
    simp [Writing.text, hshows.eq, hshows'.eq, hshows''.eq]

theorem Shown.length {component : Component} {array : Expr}
    (hkind : component.kind = .arrayLength) (h : Shown α style array) :
    Shown α style (.use component none [array]) := by
  obtain ⟨text, w, htext, hshows, hlevel, hneeded⟩ := h.left (p := .dot) rfl
  have htree : tree style (.use component none [array]) = .length (tree style array) := by
    rw [tree, hkind]
    rfl
  rw [Shown, htree]
  refine ⟨.dot, text ++ ".length", .length w, precedence_use hkind _ _, ?_, ?_, rfl, rfl⟩
  · simp only [render, useText, hkind, renderEach, arrayText_cons, htext]
    rfl
  · refine ⟨?_, ⟨hlevel, hshows.sound⟩, ⟨hneeded, hshows.sparing⟩⟩
    simp [Writing.text, hshows.eq]

theorem shown_of_readable (h : Readable α style e) : Shown α style e := by
  induction h with
  | literal n => exact shown_number n
  | @«variable» name type hname =>
      refine ⟨.atom, name, .name hname, rfl, rfl, ⟨rfl, trivial, trivial⟩, rfl, rfl⟩
  | unary op _ ih => exact ih.unary op
  | binary op _ _ ihleft ihright => exact ihleft.binary ihright op
  | call hkind hname _ _ _ ihreceiver ihargs => exact .call hkind hname ihreceiver ihargs
  | get hkind _ _ iharray ihi => exact .get hkind iharray ihi
  | set hkind _ _ _ iharray ihi ihvalue => exact .set hkind iharray ihi ihvalue
  | length hkind _ _ iharray => exact .length hkind iharray

/-- No pair of parentheses in the text of an expression can be left out. Without it, unless it keeps
two equal signs apart, the text is refused or read as another tree. -/
theorem parentheses_needed (h : Readable α style e) :
    ∃ text, render style e = .ok text ∧ ∀ a b c, Pair α text.toList a b c → ¬ AroundSign a b c →
      ∀ t, Parses α (String.ofList (a ++ (b ++ c))) t → t ≠ tree style e := by
  obtain ⟨-, text, w, -, htext, hshows, -, hgroups⟩ := shown_of_readable h
  refine ⟨text, htext, ?_⟩
  rintro a b c hpair hsign t ⟨ts, htokens, hderives⟩ rfl
  rw [hshows.eq] at hpair
  have hspoils := tight_of_sparing w hshows.sound hshows.sparing a b c hpair fun _ => hgroups
  obtain ⟨v, hv, hspoilt⟩ := hspoils.resolve_right fun haround => hsign haround.1
  obtain ⟨hspelling, hnames⟩ := spells_of_tokens? htokens
  -- A derivation is a sound writing with the same characters, so it is the spoilt one.
  obtain ⟨u, -, hsound, hu⟩ := isWritten_of_derives hderives hnames
  rw [hspelling, String.toList_ofList, ← hv, solid_text] at hu
  rw [eq_of_text hu] at hsound
  exact hspoilt ⟨Nat.zero_le _, hsound⟩

/-- A product whose factors are a sum and a negated negation. -/
def signedProduct : Expr :=
  .binary .mult (.binary .add (.variable "a" int) (.variable "b" int))
    (.unary .neg (.unary .neg (.variable "c" int)))

theorem parentheses_needed_signedProduct :
    Readable asciiNames .simple signedProduct ∧
      render .simple signedProduct = .ok "(a + b) * -(-c)" ∧
      Pair asciiNames "(a + b) * -(-c)".toList [] "a + b".toList " * -(-c)".toList ∧
      ¬ AroundSign [] "a + b".toList " * -(-c)".toList ∧
      ∀ t, Parses asciiNames "a + b * -(-c)" t → t ≠ tree .simple signedProduct := by
  have hreadable : Readable asciiNames .simple signedProduct :=
    .binary _ (.binary _ (.variable _ (by decide)) (.variable _ (by decide)))
      (.unary _ (.unary _ (.variable _ (by decide))))
  have hrender : render .simple signedProduct = .ok "(a + b) * -(-c)" := by decide +kernel
  have hpair : Pair asciiNames "(a + b) * -(-c)".toList [] "a + b".toList " * -(-c)".toList :=
    ⟨by decide, by decide, fun _ hd => absurd hd (Option.not_mem_none _)⟩
  have hsign : ¬ AroundSign [] "a + b".toList " * -(-c)".toList := by
    rintro ⟨op, hop, -⟩
    cases op <;> exact absurd hop (by decide)
  obtain ⟨text, htext, hneeded⟩ := parentheses_needed hreadable
  obtain rfl := Except.ok.inj (hrender.symm.trans htext)
  exact ⟨hreadable, hrender, hpair, hsign, hneeded _ _ _ hpair hsign⟩

end FragmentSynthesis.Proofs.NeededParentheses
