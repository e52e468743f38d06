import FragmentSynthesis.ExpressionText
import FragmentSynthesis.Proofs.SourceGrammar

namespace FragmentSynthesis.Proofs.ReadingBack

open FragmentSynthesis.Components
open FragmentSynthesis.Expression
open FragmentSynthesis.ExpressionText
open FragmentSynthesis.Faults
open FragmentSynthesis.Operators
open FragmentSynthesis.Proofs.SourceGrammar
open FragmentSynthesis.Proofs.SourceTokens
open FragmentSynthesis.TypeName
open FragmentSynthesis.Values

/-- The tree of an array operation on its arguments. -/
def arrayTree : Kind → List Tree → Tree
  | .arrayGet, [array, i] => .index array i
  | .arraySet, [array, i, value] => .store array i value
  | .arrayLength, [array] => .length array
  | _, _ => .unreadable

/-- A number as it is read, a negative one as the negation of a positive one. -/
def numberTree : Int → Tree
  | .ofNat n => .number n
  | .negSucc n => .unary .neg (.number (n + 1))

mutual

/-- What an expression shows in its source text. -/
def tree (style : NameStyle) : Expr → Tree
  | .literal (.int n) _ => numberTree n
  | .literal _ _ => .unreadable
  | .variable name _ => .name name
  | .unary op operand => .unary op (tree style operand)
  | .binary op left right => .binary op (tree style left) (tree style right)
  | .use component none args => arrayTree component.kind (trees style args)
  | .use component (some receiver) args =>
      .call (tree style receiver) (component.displayName style) (trees style args)
  | .foreign _ => .unreadable

def trees (style : NameStyle) : List Expr → List Tree
  | [] => []
  | e :: rest => tree style e :: trees style rest

end

def isLiteral : Expr → Bool
  | .literal .. => true
  | _ => false

/-- Expressions of whole numbers, variables, operators, calls of methods on a receiver and
operations on arrays. No constant stands before a dot. -/
inductive Readable (α : Alphabet) (style : NameStyle) : Expr → Prop
  | literal (n : Int) : Readable α style (.literal (.int n) int)
  | variable {name : String} (type : String) (hname : IsName α name) :
      Readable α style (.variable name type)
  | unary {operand : Expr} (op : UnaryOp) (h : Readable α style operand) :
      Readable α style (.unary op operand)
  | binary {left right : Expr} (op : BinaryOp) (hleft : Readable α style left)
      (hright : Readable α style right) : Readable α style (.binary op left right)
  | call {component : Component} {receiver : Expr} {args : List Expr}
      (hkind : component.kind = .method) (hname : IsName α (component.displayName style))
      (hreceiver : Readable α style receiver) (hliteral : isLiteral receiver = false)
      (hargs : ∀ arg ∈ args, Readable α style arg) :
      Readable α style (.use component (some receiver) args)
  | get {component : Component} {array i : Expr} (hkind : component.kind = .arrayGet)
      (harray : Readable α style array) (hi : Readable α style i) :
      Readable α style (.use component none [array, i])
  | set {component : Component} {array i value : Expr} (hkind : component.kind = .arraySet)
      (harray : Readable α style array) (hi : Readable α style i)
      (hvalue : Readable α style value) :
      Readable α style (.use component none [array, i, value])
  | length {component : Component} {array : Expr} (hkind : component.kind = .arrayLength)
      (harray : Readable α style array) (hliteral : isLiteral array = false) :
      Readable α style (.use component none [array])

/-- A text is read as a tree. -/
def Parses (α : Alphabet) (text : String) (t : Tree) : Prop :=
  ∃ ts, α.tokens? text = some ts ∧ Derives (.term Precedence.assignment.level t) ts

variable {α : Alphabet} {style : NameStyle}

/-- A token that may begin an expression. -/
inductive Opening (α : Alphabet) : Token → Prop
  | word {name : String} (h : IsName α name) : Opening α (.word name)
  | number (n : Nat) : Opening α (.number n)
  | openParen : Opening α .openParen
  | sign (op : UnaryOp) : Opening α (prefixToken op)

/-- A token that may end an expression. -/
inductive Closing (α : Alphabet) : Token → Prop
  | word {name : String} (h : IsName α name) : Closing α (.word name)
  | number (n : Nat) : Closing α (.number n)
  | closeParen : Closing α .closeParen
  | closeBracket : Closing α .closeBracket

/-- Of what terms begin with, only a minus sign makes another sign with a prefix operator, and this
only with another minus sign. -/
theorem followers_prefixToken (op : UnaryOp) :
    ∃ a ∈ marks, (prefixToken op).spell = [a] ∧
      '(' ∉ followers a ∧ '!' ∉ followers a ∧ ('-' ∈ followers a → op = .neg) := by
  cases op with
  | not => exact ⟨'!', by decide +kernel, rfl, by decide +kernel⟩
  | neg => exact ⟨'-', by decide +kernel, rfl, by decide +kernel⟩

theorem Opening.adjoins {u : Token} (h : Opening α u) {op : UnaryOp} (hne : u ≠ prefixToken op) :
    Adjoins α (some (prefixToken op)) (some u) := by
  obtain ⟨a, ha, hspell, hparen, hnot, hneg⟩ := followers_prefixToken op
  have hpart {c : Char} (hc : α.isPart c = true) : Ends α (prefixToken op) c :=
    ends_sign hspell ha fun hmem => notMem_marks hc (mem_marks_of_follower hmem)
  intro c hc
  cases h with
  | word hname =>
      obtain ⟨d, ds, hd, hstart, -⟩ := hname.eq_cons
      rw [spellPiece, Token.spell, hd] at hc
      rw [← Option.some.inj hc]
      exact hpart (α.part_of_start d hstart)
  | number n =>
      obtain ⟨d, ds, hd, hdigit, -⟩ := exists_digits n
      rw [spellPiece, Token.spell, hd] at hc
      rw [← Option.some.inj hc]
      exact hpart (α.part_of_digit d hdigit)
  | openParen =>
      rw [← Option.some.inj hc]
      exact ends_sign hspell ha hparen
  | sign other =>
      refine ends_sign hspell ha fun hmem => ?_
      cases other with
      | not => exact hnot (Option.some.inj hc ▸ hmem)
      | neg =>
          have hminus : '-' = c := Option.some.inj hc
          have hop : op = .neg := hneg (hminus ▸ hmem)
          exact hne (hop ▸ rfl)

/-- The signs that stand behind terms of all sorts. -/
def followingSigns : List Token :=
  [.closeParen, .openBracket, .closeBracket, .comma]

theorem Closing.adjoins {u t : Token} (h : Closing α u) (ht : t ∈ followingSigns) :
    Adjoins α (some u) (some t) := by
  have hsigns : ∀ t ∈ followingSigns, t ∈ signs ∧ '.' ∉ t.spell := by decide +kernel
  obtain ⟨hsign, hdot⟩ := hsigns t ht
  intro c hc
  have hmem : c ∈ t.spell := List.mem_of_mem_head? hc
  have hpart := α.part_of_mark c (mem_marks_of_sign hsign hmem)
  cases h with
  | word hname => exact ends_word hname hpart
  | number n => exact ends_number n hpart fun heq => hdot (heq ▸ hmem)
  | closeParen => exact adjoins_bracket (by decide) (some t) c hc
  | closeBracket => exact adjoins_bracket (by decide) (some t) c hc

theorem Closing.adjoins_dot {u : Token} (h : Closing α u) (hu : ∀ n, u ≠ .number n) :
    Adjoins α (some u) (some .dot) := by
  have hmark : '.' ∈ marks := by decide +kernel
  cases h with
  | word hname =>
      intro c hc
      rw [← Option.some.inj hc]
      exact ends_word hname (α.part_of_mark '.' hmark)
  | number n => exact absurd rfl (hu n)
  | closeParen => exact adjoins_bracket (by decide) _
  | closeBracket => exact adjoins_bracket (by decide) _

/-- A text is spelled in pieces whose tokens have a derivation. Of the terms that stand before dots,
only a lone numeral ends with one. -/
structure Prints (α : Alphabet) (level : Nat) (t : Tree) (text : String) (ps : List Piece) :
    Prop where
  spelled : text.toList = spellPieces ps
  legible : Legible α ps
  derives : Derives (.term level t) (ps.filterMap id)
  opens : ∃ u, ps.head? = some (some u) ∧ Opening α u
  closes : ∃ u, ps.getLast? = some (some u) ∧ Closing α u ∧
    ∀ n, u = .number n → level < Precedence.dot.level ∨ t = .number n

theorem Prints.weaken {k level : Nat} {t : Tree} {text : String} {ps : List Piece}
    (h : Prints α level t text ps) (hle : k ≤ level) : Prints α k t text ps := by
  obtain ⟨u, hlast, hu, hnumber⟩ := h.closes
  refine ⟨h.spelled, h.legible, h.derives.weaken hle, h.opens, u, hlast, hu, ?_⟩
  intro n hn
  exact (hnumber n hn).imp_left (Nat.lt_of_le_of_lt hle)

theorem Prints.adjoins {level : Nat} {t : Tree} {text : String} {ps : List Piece}
    (h : Prints α level t text ps) {v : Token} (hv : v ∈ followingSigns) :
    ∀ p ∈ ps.getLast?, Adjoins α p (some v) := by
  obtain ⟨u, hlast, hu, -⟩ := h.closes
  intro p hp
  rw [hlast] at hp
  rw [← Option.some.inj hp]
  exact hu.adjoins hv

theorem Prints.adjoins_dot {t : Tree} {text : String} {ps : List Piece}
    (h : Prints α Precedence.dot.level t text ps) (ht : ∀ n, t ≠ .number n) :
    ∀ p ∈ ps.getLast?, Adjoins α p (some .dot) := by
  obtain ⟨u, hlast, hu, hnumber⟩ := h.closes
  intro p hp
  rw [hlast] at hp
  rw [← Option.some.inj hp]
  exact hu.adjoins_dot fun n hn => (hnumber n hn).elim (Nat.lt_irrefl _) (ht n)

theorem Prints.opens_append {level : Nat} {t : Tree} {text : String} {ps : List Piece}
    (h : Prints α level t text ps) (qs : List Piece) :
    ∃ u, (ps ++ qs).head? = some (some u) ∧ Opening α u := by
  obtain ⟨u, hfirst, hu⟩ := h.opens
  refine ⟨u, ?_, hu⟩
  rw [List.head?_append, hfirst]
  rfl

theorem Prints.grouped {level : Nat} {t : Tree} {text : String} {ps : List Piece}
    (h : Prints α level t text ps) (hlevel : Precedence.assignment.level ≤ level) :
    Prints α Precedence.atom.level t ("(" ++ text ++ ")")
      (some .openParen :: (ps ++ [some .closeParen])) where
  spelled := by simp [spellPieces, spellPiece, Token.spell, h.spelled]
  legible := h.legible.bracketed (by decide) (by decide) (h.adjoins (by decide))
  derives := by simpa using Derives.group (h.derives.weaken hlevel)
  opens := ⟨_, rfl, .openParen⟩
  closes := ⟨.closeParen, by simp [List.getLast?_cons], .closeParen,
    fun _ hn => Token.noConfusion hn⟩

theorem Prints.wrap {level : Nat} {t : Tree} {text : String} {ps : List Piece}
    (h : Prints α level t text ps) (hlevel : Precedence.assignment.level ≤ level) {k : Nat}
    (hk : k ≤ Precedence.atom.level) {parens : Bool} (hparens : parens = false → k ≤ level) :
    ∃ qs, Prints α k t (wrap parens text) qs := by
  cases parens with
  | false => exact ⟨ps, h.weaken (hparens rfl)⟩
  | true => exact ⟨_, (h.grouped hlevel).weaken hk⟩

theorem prints_number (n : Nat) :
    Prints α Precedence.atom.level (.number n) (toString n) [some (.number n)] where
  spelled := by simp [spellPieces, spellPiece, Token.spell]
  legible := legible_singleton (spelled_number n)
  derives := .number n
  opens := ⟨_, rfl, .number n⟩
  closes := ⟨_, rfl, .number n, fun m hm => .inr (by rw [Token.number.inj hm])⟩

theorem prints_name {name : String} (h : IsName α name) :
    Prints α Precedence.atom.level (.name name) name [some (.word name)] where
  spelled := by simp [spellPieces, spellPiece, Token.spell]
  legible := legible_singleton (spelled_word h)
  derives := .name name
  opens := ⟨_, rfl, .word h⟩
  closes := ⟨_, rfl, .word h, fun _ hn => Token.noConfusion hn⟩

theorem Prints.unary {t : Tree} {text : String} {ps : List Piece}
    (h : Prints α Precedence.unary.level t text ps) {op : UnaryOp}
    (hsign : text.startsWith op.symbol = false) :
    Prints α Precedence.unary.level (.unary op t) (op.symbol ++ text)
      (some (prefixToken op) :: ps) := by
  obtain ⟨u, hfirst, hu⟩ := h.opens
  obtain ⟨v, hlast, hv, -⟩ := h.closes
  have hspell : (prefixToken op).spell = op.symbol.toList := by cases op <;> rfl
  have hsigns : prefixToken op ∈ signs := by cases op <;> decide +kernel
  -- An operand that begins with the sign of the operator stands in parentheses.
  have hne : u ≠ prefixToken op := by
    rintro rfl
    obtain ⟨rest, rfl⟩ := List.head?_eq_some_iff.mp hfirst
    have hbegin : op.symbol.toList <+: text.toList := by
      rw [h.spelled, ← hspell]
      exact List.prefix_append _ _
    rw [String.startsWith_string_iff.mpr hbegin] at hsign
    cases hsign
  constructor
  · simp [spellPieces, spellPiece, hspell, h.spelled]
  · refine h.legible.cons (spelled_sign hsigns) fun p hp => ?_
    rw [hfirst] at hp
    rw [← Option.some.inj hp]
    exact hu.adjoins hne
  · exact h.derives.unary op
  · exact ⟨_, rfl, .sign op⟩
  · refine ⟨v, ?_, hv, fun _ _ => .inl (by decide)⟩
    rw [List.getLast?_cons, hlast]
    rfl

theorem Prints.binary {t u : Tree} {left right : String} {ps qs : List Piece} {op : BinaryOp}
    (hleft : Prints α op.precedence.level t left ps)
    (hright : Prints α (op.precedence.level + 1) u right qs) :
    Prints α op.precedence.level (.binary op t u) (left ++ " " ++ op.symbol ++ " " ++ right)
      (ps ++ none :: some (.operator op) :: none :: qs) := by
  obtain ⟨u, hlast, hu, -⟩ := hright.closes
  have hsign : Token.operator op ∈ signs :=
    List.mem_append_left _ (List.mem_append_right _ (List.mem_map_of_mem (mem_binaryOps op)))
  constructor
  · simp [spellPieces, spellPiece, Token.spell, hleft.spelled, hright.spelled]
  · exact hleft.legible.spaced hsign hright.legible
  · simpa using hleft.derives.binary op hright.derives
  · exact hleft.opens_append _
  · refine ⟨u, by simp [List.getLast?_cons, hlast], hu, fun _ _ => .inl ?_⟩
    exact Nat.lt_trans (level_lt op).2 (by decide)

theorem Prints.store {array i value : Tree} {target text : String} {ps qs : List Piece}
    (htarget : Prints α Precedence.dot.level (.index array i) target ps)
    (hvalue : Prints α Precedence.assignment.level value text qs) :
    Prints α Precedence.assignment.level (.store array i value) (target ++ " = " ++ text)
      (ps ++ none :: some .equals :: none :: qs) := by
  obtain ⟨u, hlast, hu, -⟩ := hvalue.closes
  constructor
  · simp [spellPieces, spellPiece, Token.spell, htarget.spelled, hvalue.spelled]
  · exact htarget.legible.spaced (by decide +kernel) hvalue.legible
  · simpa using htarget.derives.store hvalue.derives
  · exact htarget.opens_append _
  · exact ⟨u, by simp [List.getLast?_cons, hlast], hu, fun _ _ => .inl (by decide)⟩

theorem Prints.index {level : Nat} {array i : Tree} {first inner : String} {ps qs : List Piece}
    (harray : Prints α Precedence.dot.level array first ps) (hi : Prints α level i inner qs)
    (hlevel : Precedence.assignment.level ≤ level) :
    Prints α Precedence.dot.level (.index array i) (first ++ "[" ++ inner ++ "]")
      (ps ++ some .openBracket :: (qs ++ [some .closeBracket])) := by
  have hinner : Legible α (some .openBracket :: (qs ++ [some .closeBracket])) :=
    hi.legible.bracketed (by decide) (by decide) (hi.adjoins (by decide))
  constructor
  · simp [spellPieces, spellPiece, Token.spell, harray.spelled, hi.spelled]
  · exact harray.legible.append_cons hinner (harray.adjoins (by decide))
  · simpa using harray.derives.index (hi.derives.weaken hlevel)
  · exact harray.opens_append _
  · exact ⟨.closeBracket, by simp [List.getLast?_cons], .closeBracket,
      fun _ hn => Token.noConfusion hn⟩

theorem legible_member {name : String} (h : IsName α name) {ps : List Piece} (hps : Legible α ps)
    (hopen : ∀ p ∈ ps.head?, p = some .openParen) :
    Legible α (some .dot :: some (.word name) :: ps) := by
  have hdot : Token.dot ∈ signs ∧ '.' ∈ marks := by decide +kernel
  have hparen : '(' ∈ marks := by decide +kernel
  have hnamed : Legible α (some (.word name) :: ps) := by
    refine hps.cons (spelled_word h) fun p hp c hc => ?_
    rw [hopen p hp] at hc
    rw [← Option.some.inj hc]
    exact ends_word h (α.part_of_mark '(' hparen)
  refine hnamed.cons (spelled_sign hdot.1) fun p hp c hc => ?_
  obtain ⟨d, ds, hd, hstart, -⟩ := h.eq_cons
  rw [← Option.some.inj hp, spellPiece, Token.spell, hd] at hc
  rw [← Option.some.inj hc]
  exact ends_sign rfl hdot.2 fun hmem =>
    notMem_marks (α.part_of_start d hstart) (mem_marks_of_follower hmem)

theorem Prints.length {array : Tree} {text : String} {ps : List Piece}
    (h : Prints α Precedence.dot.level array text ps) (harray : ∀ n, array ≠ .number n) :
    Prints α Precedence.dot.level (.length array) (text ++ ".length")
      (ps ++ [some .dot, some (.word "length")]) := by
  constructor
  · simp [spellPieces, spellPiece, Token.spell, h.spelled]
  · exact h.legible.append_cons
      (legible_member isName_length legible_nil fun p hp => absurd hp (Option.not_mem_none p))
      (h.adjoins_dot harray)
  · simpa using h.derives.length
  · exact h.opens_append _
  · exact ⟨.word "length", by simp, .word isName_length, fun _ hn => Token.noConfusion hn⟩

/-- The texts of arguments with commas between them. -/
structure PrintsArguments (α : Alphabet) (ts : List Tree) (text : String) (ps : List Piece) :
    Prop where
  spelled : text.toList = spellPieces ps
  legible : Legible α ps
  derives : Derives (.arguments ts) (ps.filterMap id)
  closes : ∀ p ∈ ps.getLast?, Adjoins α p (some .closeParen)

theorem printsArguments_nil : PrintsArguments α [] "" [] where
  spelled := rfl
  legible := legible_nil
  derives := .noArguments
  closes := fun p hp => absurd hp (Option.not_mem_none p)

theorem Prints.lastArgument {level : Nat} {t : Tree} {text : String} {ps : List Piece}
    (h : Prints α level t text ps) (hlevel : Precedence.assignment.level ≤ level) :
    PrintsArguments α [t] text ps where
  spelled := h.spelled
  legible := h.legible
  derives := .lastArgument (h.derives.weaken hlevel)
  closes := h.adjoins (by decide)

theorem Prints.moreArguments {level : Nat} {t u : Tree} {args : List Tree} {text others : String}
    {ps qs : List Piece} (h : Prints α level t text ps)
    (hlevel : Precedence.assignment.level ≤ level)
    (hargs : PrintsArguments α (u :: args) others qs) :
    PrintsArguments α (t :: u :: args) (text ++ ", " ++ others)
      (ps ++ some .comma :: none :: qs) := by
  have hcomma : Legible α (some .comma :: none :: qs) :=
    hargs.legible.blank.bracket (by decide)
  constructor
  · simp [spellPieces, spellPiece, Token.spell, h.spelled, hargs.spelled]
  · exact h.legible.append_cons hcomma (h.adjoins (by decide))
  · simpa using (h.derives.weaken hlevel).moreArguments hargs.derives
  · intro p hp
    rw [List.getLast?_append, List.getLast?_cons, List.getLast?_cons] at hp
    cases hlast : qs.getLast? with
    | none =>
        rw [hlast] at hp
        rw [← Option.some.inj hp]
        trivial
    | some q =>
        rw [hlast] at hp
        rw [← Option.some.inj hp]
        exact hargs.closes q hlast

theorem Prints.call {receiver : Tree} {args : List Tree} {text name others : String}
    {ps qs : List Piece} (h : Prints α Precedence.dot.level receiver text ps)
    (hreceiver : ∀ n, receiver ≠ .number n) (hname : IsName α name)
    (hargs : PrintsArguments α args others qs) :
    Prints α Precedence.dot.level (.call receiver name args)
      (text ++ "." ++ name ++ "(" ++ others ++ ")")
      (ps ++ some .dot :: some (.word name) :: some .openParen :: (qs ++ [some .closeParen])) := by
  have hlist : Legible α (some .openParen :: (qs ++ [some .closeParen])) :=
    hargs.legible.bracketed (by decide) (by decide) hargs.closes
  have hopen : ∀ p ∈ (some .openParen :: (qs ++ [some .closeParen])).head?, p = some .openParen :=
    fun p hp => (Option.some.inj hp).symm
  constructor
  · simp [spellPieces, spellPiece, Token.spell, h.spelled, hargs.spelled]
  · exact h.legible.append_cons (legible_member hname hlist hopen) (h.adjoins_dot hreceiver)
  · simpa using h.derives.call name hargs.derives
  · exact h.opens_append _
  · exact ⟨.closeParen, by simp [List.getLast?_cons], .closeParen,
      fun _ hn => Token.noConfusion hn⟩

/-- The text of an expression has a derivation at the level of its precedence. -/
def Printed (α : Alphabet) (style : NameStyle) (e : Expr) : Prop :=
  ∃ p text ps, precedence e = .ok p ∧ render style e = .ok text ∧
    Prints α p.level (tree style e) text ps

theorem level_bounds (p : Precedence) :
    Precedence.assignment.level ≤ p.level ∧ p.level ≤ Precedence.atom.level := by
  cases p <;> decide

theorem Printed.left {e : Expr} (h : Printed α style e) {p : Precedence}
    (hp : p.rightAssociative = false) :
    ∃ text ps, leftText p (precedence e) (render style e) = .ok text ∧
      Prints α p.level (tree style e) text ps := by
  obtain ⟨child, text, ps, hchild, htext, hprints⟩ := h
  have hparens : p.parenLeft child = false → p.level ≤ child.level := by
    simp [Precedence.parenLeft, hp]
  obtain ⟨qs, hqs⟩ := hprints.wrap (level_bounds child).1 (level_bounds p).2 hparens
  rw [hchild, htext]
  exact ⟨_, qs, rfl, hqs⟩

theorem Printed.right {e : Expr} (h : Printed α style e) (op : BinaryOp) :
    ∃ text ps, rightText op.precedence (precedence e) (render style e) = .ok text ∧
      Prints α (op.precedence.level + 1) (tree style e) text ps := by
  obtain ⟨p, text, ps, hp, htext, hprints⟩ := h
  have hleft : op.precedence.rightAssociative = false := by cases op <;> rfl
  have hparens : op.precedence.parenRight p = false → op.precedence.level + 1 ≤ p.level := by
    intro hbare
    apply Nat.succ_le_of_lt
    simpa [Precedence.parenRight, hleft] using hbare
  have hatom : op.precedence.level + 1 ≤ Precedence.atom.level :=
    Nat.le_trans (level_lt op).2 (by decide)
  obtain ⟨qs, hqs⟩ := hprints.wrap (level_bounds p).1 hatom hparens
  rw [hp, htext]
  exact ⟨_, qs, rfl, hqs⟩

theorem Printed.operand {e : Expr} (h : Printed α style e) (op : UnaryOp) :
    ∃ text ps, operandText op (precedence e) (render style e) = .ok text ∧
      text.startsWith op.symbol = false ∧
      Prints α Precedence.unary.level (tree style e) text ps := by
  obtain ⟨p, text, ps, hp, htext, hprints⟩ := h
  have hparens : (Precedence.unary.parenRight p || text.startsWith op.symbol) = false →
      Precedence.unary.level ≤ p.level := by
    intro h
    simpa [Precedence.parenRight, Precedence.rightAssociative] using (Bool.or_eq_false_iff.mp h).1
  obtain ⟨qs, hqs⟩ := hprints.wrap (level_bounds p).1 (level_bounds .unary).2 hparens
  rw [hp, htext]
  refine ⟨_, qs, rfl, ?_, hqs⟩
  cases hwrapped : Precedence.unary.parenRight p || text.startsWith op.symbol with
  | false => exact (Bool.or_eq_false_iff.mp hwrapped).2
  | true =>
      rw [Bool.eq_false_iff, wrap, if_pos rfl]
      intro hbegin
      have hprefix := String.startsWith_string_iff.mp hbegin
      cases op <;> simp [UnaryOp.symbol] at hprefix

theorem tree_ne_number {e : Expr} (h : Readable α style e) (hliteral : isLiteral e = false)
    (n : Nat) : tree style e ≠ .number n := by
  cases h with
  | literal m => cases hliteral
  | get hkind | set hkind | length hkind =>
      rw [tree, hkind]
      exact Tree.noConfusion
  | _ => exact Tree.noConfusion

theorem startsWith_numeral (n : Nat) : (toString n).startsWith "-" = false := by
  rw [Bool.eq_false_iff]
  intro hbegin
  obtain ⟨c, cs, hn, hdigit, -⟩ := exists_digits n
  have hprefix : ['-'] <+: c :: cs := by
    simpa [hn] using String.startsWith_string_iff.mp hbegin
  rw [← (List.cons_prefix_cons.mp hprefix).1] at hdigit
  cases hdigit

theorem startsWith_minus (text : String) : ("-" ++ text).startsWith "-" = true := by
  simp

/-- A negative number is printed like the negation of a positive one. -/
theorem printed_number (n : Int) : Printed α style (.literal (.int n) int) := by
  cases n with
  | ofNat n =>
      have hprecedence : literalPrecedence (toString n) = .atom := by
        rw [literalPrecedence, startsWith_numeral]
        rfl
      exact ⟨.atom, _, _, congrArg Except.ok hprecedence, rfl, prints_number n⟩
  | negSucc n =>
      have hprecedence : literalPrecedence ("-" ++ toString (n + 1)) = .unary := by
        rw [literalPrecedence, startsWith_minus]
        rfl
      have hprints : Prints α Precedence.unary.level (numberTree (.negSucc n))
          ("-" ++ toString (n + 1)) [some (prefixToken .neg), some (.number (n + 1))] :=
        ((prints_number (n + 1)).weaken (by decide)).unary (startsWith_numeral (n + 1))
      exact ⟨.unary, _, _, congrArg Except.ok hprecedence, rfl, hprints⟩

theorem sequence_renderEach_cons {e : Expr} {rest : List Expr} {text : String}
    {texts : List String} (htext : render style e = .ok text)
    (htexts : ExpressionText.sequence (renderEach style rest) = .ok texts) :
    ExpressionText.sequence (renderEach style (e :: rest)) = .ok (text :: texts) := by
  rw [renderEach, ExpressionText.sequence, htext, htexts]
  rfl

theorem exists_texts_cons {e : Expr} {rest : List Expr} {text : String} {texts : List String}
    (hrender : render style e = .ok text)
    (h : ExpressionText.sequence (renderEach style (e :: rest)) = .ok texts) :
    ∃ others, texts = text :: others := by
  rw [renderEach, ExpressionText.sequence, hrender] at h
  cases hrest : ExpressionText.sequence (renderEach style rest) with
  | error fault =>
      rw [hrest] at h
      cases h
  | ok others =>
      rw [hrest] at h
      exact ⟨others, (Except.ok.inj h).symm⟩

theorem exists_printsArguments {args : List Expr} (h : ∀ arg ∈ args, Printed α style arg) :
    ∃ texts ps, ExpressionText.sequence (renderEach style args) = .ok texts ∧
      PrintsArguments α (trees style args) (", ".intercalate texts) ps := by
  induction args with
  | nil => exact ⟨[], [], rfl, printsArguments_nil⟩
  | cons arg rest ih =>
      obtain ⟨p, text, ps, -, htext, hprints⟩ := h arg List.mem_cons_self
      obtain ⟨texts, qs, htexts, hrest⟩ := ih fun e he => h e (List.mem_cons_of_mem arg he)
      have hsequence := sequence_renderEach_cons htext htexts
      cases rest with
      | nil =>
          obtain rfl : [] = texts := Except.ok.inj htexts
          refine ⟨_, ps, hsequence, ?_⟩
          rw [String.intercalate_singleton]
          exact hprints.lastArgument (level_bounds p).1
      | cons next rest =>
          obtain ⟨_, other, _, -, hother, -⟩ := h next (by simp)
          obtain ⟨others, rfl⟩ := exists_texts_cons hother htexts
          refine ⟨_, ps ++ some .comma :: none :: qs, hsequence, ?_⟩
          rw [String.intercalate_cons_cons]
          exact hprints.moreArguments (level_bounds p).1 hrest

theorem arrayText_cons (array : Expr) (rest : List Expr) (text : Except Fault String)
    (texts : List (Except Fault String)) :
    arrayText (array :: rest) (text :: texts) = leftText .dot (precedence array) text :=
  rfl

theorem Printed.unary {operand : Expr} (h : Printed α style operand) (op : UnaryOp) :
    Printed α style (.unary op operand) := by
  obtain ⟨text, ps, htext, hsign, hprints⟩ := h.operand op
  refine ⟨.unary, _, _, rfl, ?_, hprints.unary hsign⟩
  rw [render, htext]
  rfl

theorem Printed.binary {left right : Expr} (hleft : Printed α style left)
    (hright : Printed α style right) (op : BinaryOp) : Printed α style (.binary op left right) := by
  have hassociative : op.precedence.rightAssociative = false := by cases op <;> rfl
  obtain ⟨text, ps, htext, hprints⟩ := hleft.left hassociative
  obtain ⟨other, qs, hother, hothers⟩ := hright.right op
  refine ⟨op.precedence, _, _, rfl, ?_, hprints.binary hothers⟩
  rw [render, htext, hother]
  rfl

theorem precedence_use {component : Component} {kind : Kind} (hkind : component.kind = kind)
    (receiver : Option Expr) (args : List Expr) :
    precedence (.use component receiver args) = .ok (kindPrecedence kind) := by
  rw [precedence, hkind]

theorem Printed.call {component : Component} {receiver : Expr} {args : List Expr}
    (hkind : component.kind = .method) (hname : IsName α (component.displayName style))
    (h : Printed α style receiver) (hreceiver : ∀ n, tree style receiver ≠ .number n)
    (hargs : ∀ arg ∈ args, Printed α style arg) :
    Printed α style (.use component (some receiver) args) := by
  obtain ⟨text, ps, htext, hprints⟩ := h.left (p := .dot) rfl
  obtain ⟨texts, qs, htexts, hlist⟩ := exists_printsArguments hargs
  refine ⟨_, _, _, precedence_use hkind _ _, ?_, hprints.call hreceiver hname hlist⟩
  simp only [render, useText, hkind, kindPrecedence, htext, htexts]
  rfl

theorem Printed.get {component : Component} {array i : Expr} (hkind : component.kind = .arrayGet)
    (h : Printed α style array) (hi : Printed α style i) :
    Printed α style (.use component none [array, i]) := by
  obtain ⟨text, ps, htext, hprints⟩ := h.left (p := .dot) rfl
  obtain ⟨p, inner, qs, -, hinner, hindex⟩ := hi
  have htree : tree style (.use component none [array, i]) =
      .index (tree style array) (tree style i) := by
    rw [tree, hkind]
    rfl
  rw [Printed, htree]
  refine ⟨_, _, _, precedence_use hkind _ _, ?_, hprints.index hindex (level_bounds p).1⟩
  simp only [render, useText, hkind, renderEach, arrayText_cons, htext, hinner]
  rfl

theorem Printed.set {component : Component} {array i value : Expr}
    (hkind : component.kind = .arraySet) (h : Printed α style array) (hi : Printed α style i)
    (hvalue : Printed α style value) :
    Printed α style (.use component none [array, i, value]) := by
  obtain ⟨text, ps, htext, hprints⟩ := h.left (p := .dot) rfl
  obtain ⟨p, inner, qs, -, hinner, hindex⟩ := hi
  obtain ⟨q, written, rs, -, hwritten, hstored⟩ := hvalue
  have htree : tree style (.use component none [array, i, value]) =
      .store (tree style array) (tree style i) (tree style value) := by
    rw [tree, hkind]
    rfl
  have hparts : text ++ "[" ++ inner ++ "] = " ++ written =
      text ++ "[" ++ inner ++ "]" ++ " = " ++ written :=
    String.toList_inj.mp (by simp)
  have hstore := (hprints.index hindex (level_bounds p).1).store
    (hstored.weaken (level_bounds q).1)
  rw [Printed, htree]
  refine ⟨_, _, _, precedence_use hkind _ _, ?_, hstore⟩
  simp only [render, useText, hkind, renderEach, arrayText_cons, htext, hinner, hwritten]
  exact congrArg Except.ok hparts

theorem Printed.length {component : Component} {array : Expr}
    (hkind : component.kind = .arrayLength) (h : Printed α style array)
    (harray : ∀ n, tree style array ≠ .number n) :
    Printed α style (.use component none [array]) := by
  obtain ⟨text, ps, htext, hprints⟩ := h.left (p := .dot) rfl
  have htree : tree style (.use component none [array]) = .length (tree style array) := by
    rw [tree, hkind]
    rfl
  rw [Printed, htree]
  refine ⟨_, _, _, precedence_use hkind _ _, ?_, hprints.length harray⟩
  simp only [render, useText, hkind, renderEach, arrayText_cons, htext]
  rfl

theorem printed_of_readable {e : Expr} (h : Readable α style e) : Printed α style e := by
  induction h with
  | literal n => exact printed_number n
  | «variable» type hname => exact ⟨_, _, _, rfl, rfl, prints_name hname⟩
  | unary op _ ih => exact ih.unary op
  | binary op _ _ ihleft ihright => exact ihleft.binary ihright op
  | call hkind hname hreceiver hliteral _ ihreceiver ihargs =>
      exact .call hkind hname ihreceiver (tree_ne_number hreceiver hliteral) ihargs
  | get hkind _ _ iharray ihi => exact .get hkind iharray ihi
  | set hkind _ _ _ iharray ihi ihvalue => exact .set hkind iharray ihi ihvalue
  | length hkind harray hliteral iharray =>
      exact .length hkind iharray (tree_ne_number harray hliteral)

theorem tokens?_of_spelled {text : String} {ps : List Piece} (h : text.toList = spellPieces ps)
    (hps : Legible α ps) : α.tokens? text = some (ps.filterMap id) := by
  rw [Alphabet.tokens?, h, scan_spellPieces hps]

/-- Every expression of this sort has a source text, and it is read as the tree of the expression
and nothing else. -/
theorem render_reads_back {e : Expr} (h : Readable α style e) :
    ∃ text, render style e = .ok text ∧ (α.tokens? text).bind read = some (tree style e) ∧
      ∀ t, Parses α text t ↔ t = tree style e := by
  obtain ⟨p, text, ps, -, hrender, hprints⟩ := printed_of_readable h
  have htokens := tokens?_of_spelled hprints.spelled hprints.legible
  have hderives := (hprints.weaken (level_bounds p).1).derives
  refine ⟨text, hrender, ?_, fun t => ?_⟩
  · rw [htokens]
    exact read_of_derives hderives
  · constructor
    · rintro ⟨ts, hts, ht⟩
      rw [htokens] at hts
      rw [← Option.some.inj hts] at ht
      exact derives_unique ht hderives
    · rintro rfl
      exact ⟨_, htokens, hderives⟩

theorem isAlpha_of_isDigit {c : Char} (h : c.isDigit = true) : c.isAlpha = false := by
  have hbound : c.val ≤ '9'.val := of_decide_eq_true (Bool.and_eq_true_iff.mp h).2
  have hbelow {d : Char} (hd : '9'.val < d.val) : ¬ d.val ≤ c.val :=
    UInt32.not_le.mpr (UInt32.lt_of_le_of_lt hbound hd)
  have hupper : c.isUpper = false :=
    decide_eq_false fun hletter => hbelow (d := 'A') (by decide) hletter.1
  have hlower : c.isLower = false :=
    Bool.and_eq_false_iff.mpr (.inl (decide_eq_false (hbelow (d := 'a') (by decide))))
  exact Bool.or_eq_false_iff.mpr ⟨hupper, hlower⟩

/-- Names of letters, digits, underscores and dollar signs. -/
def asciiNames : Alphabet where
  isStart := fun c => c.isAlpha || c == '_' || c == '$'
  isPart := fun c => c.isAlphanum || c == '_' || c == '$'
  start_of_letter := by
    intro c hc
    rw [hc]
    rfl
  part_of_start := by
    intro c hc
    simp only [Char.isAlphanum, Bool.or_eq_true] at hc ⊢
    tauto
  part_of_digit := by
    intro c hc
    rw [Char.isAlphanum, hc, Bool.or_true]
    rfl
  start_of_digit := by
    intro c hc
    have hne (d : Char) (hd : d.isDigit = false) : (c == d) = false := by
      rw [beq_eq_false_iff_ne]
      rintro rfl
      exact Bool.false_ne_true (hd.symm.trans hc)
    rw [isAlpha_of_isDigit hc, hne '_' rfl, hne '$' rfl]
    rfl
  part_of_mark := by
    intro c hc
    have hmarks : (marks.all fun c => !(c.isAlphanum || c == '_' || c == '$')) = true := by
      decide +kernel
    exact Bool.not_eq_true' _ |>.mp (List.all_eq_true.mp hmarks c hc)

def sizeMethod : Component :=
  unregistered ⟨.method, some "java.util.List", some "size", int, [], false, [], rfl⟩ none

/-- An element is set, with signs and differences that group. -/
def nestedStore : Expr :=
  .use (arrayComponent .arraySet void ["int[]", int, int]) none
    [.variable "xs" "int[]", .unary .neg (.unary .neg (.variable "i" int)),
      .binary .sub (.literal (.int 1) int)
        (.binary .sub (.literal (.int (-2)) int)
          (.use sizeMethod (some (.variable "s" "java.util.List")) []))]

theorem readable_nestedStore : Readable asciiNames .simple nestedStore := by
  have hxs : IsName asciiNames "xs" := by decide
  have hi : IsName asciiNames "i" := by decide
  have hs : IsName asciiNames "s" := by decide
  have hsize : IsName asciiNames (sizeMethod.displayName .simple) := by decide
  have hcall : Readable asciiNames .simple
      (.use sizeMethod (some (.variable "s" "java.util.List")) []) :=
    .call rfl hsize (.variable _ hs) rfl (List.forall_mem_nil _)
  exact .set rfl (.variable _ hxs) (.unary _ (.unary _ (.variable _ hi)))
    (.binary _ (.literal _) (.binary _ (.literal _) hcall))

theorem render_reads_back_nestedStore :
    Readable asciiNames .simple nestedStore ∧
      render .simple nestedStore = .ok "xs[-(-i)] = 1 - (-2 - s.size())" ∧
      ∀ t, Parses asciiNames "xs[-(-i)] = 1 - (-2 - s.size())" t ↔
        t = tree .simple nestedStore := by
  have hrender : render .simple nestedStore = .ok "xs[-(-i)] = 1 - (-2 - s.size())" := by
    decide +kernel
  obtain ⟨text, htext, -, hread⟩ := render_reads_back readable_nestedStore
  rw [hrender] at htext
  rw [← Except.ok.inj htext] at hread
  exact ⟨readable_nestedStore, hrender, hread⟩

end FragmentSynthesis.Proofs.ReadingBack
