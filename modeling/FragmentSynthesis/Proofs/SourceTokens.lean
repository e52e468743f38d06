import FragmentSynthesis.Operators
import Mathlib.Data.List.Chain
import Mathlib.Data.List.Infix

/-!
Source text as a sequence of tokens. A lexeme goes on as long as one more character leaves it a
lexeme, and since every beginning of a lexeme is a lexeme, this finds the longest one. Tokens
that are spelled one after the other come out again, as long as none of them could go on with the
first character of the next one. The tokens of any text spell what stands between its blanks.
-/

namespace FragmentSynthesis.Proofs.SourceTokens

open FragmentSynthesis.Operators

/-- Names, decimal numerals, the signs that expressions are made of, and what else there is. -/
inductive Token
  | word (name : String)
  | number (n : Nat)
  | openParen
  | closeParen
  | openBracket
  | closeBracket
  | comma
  | dot
  | equals
  | bang
  | operator (op : BinaryOp)
  | other (text : String)
  deriving DecidableEq

/-- The characters of a token. -/
def Token.spell : Token → List Char
  | .word name => name.toList
  | .number n => Nat.toDigits 10 n
  | .openParen => ['(']
  | .closeParen => [')']
  | .openBracket => ['[']
  | .closeBracket => [']']
  | .comma => [',']
  | .dot => ['.']
  | .equals => ['=']
  | .bang => ['!']
  | .operator op => op.symbol.toList
  | .other text => text.toList

/-- The operators between operands. -/
def binaryOps : List BinaryOp :=
  [.mult, .div, .mod, .add, .sub, .lt, .lte, .gt, .gte, .eq, .notEq, .bitAnd, .bitXor, .bitOr,
    .and, .or]

theorem mem_binaryOps (op : BinaryOp) : op ∈ binaryOps := by
  cases op <;> decide

/-- The signs of the language that no expression here is made of. Two dots begin three of them, and
what begins a comment is no sign but ends a sign all the same. -/
def otherSigns : List String :=
  ["\x7b", "\x7d", ";", "@", ":", "::", "?", "~", "..", "...", "->", "++", "--", "<<", ">>", ">>>",
    "+=", "-=", "*=", "/=", "%=", "&=", "|=", "^=", "<<=", ">>=", ">>>=", "//", "/*"]

/-- The tokens that are neither words nor numbers. -/
def signs : List Token :=
  [.openParen, .closeParen, .openBracket, .closeBracket, .comma, .dot, .equals, .bang]
    ++ binaryOps.map .operator ++ otherSigns.map .other

def sign? (cs : List Char) : Option Token :=
  signs.find? fun t => t.spell == cs

/-- The characters that separate tokens. -/
def blanks : List Char :=
  [' ', '\t', '\n', '\r', '\x0c']

/-- The characters that stand in no name. -/
def marks : List Char :=
  signs.flatMap Token.spell ++ blanks

/-- The characters that begin names and those that stand in them. Letters begin a name and digits do
not; signs and blanks end one. -/
structure Alphabet where
  isStart : Char → Bool
  isPart : Char → Bool
  start_of_letter : ∀ c, c.isAlpha = true → isStart c = true
  part_of_start : ∀ c, isStart c = true → isPart c = true
  part_of_digit : ∀ c, c.isDigit = true → isPart c = true
  start_of_digit : ∀ c, c.isDigit = true → isStart c = false
  part_of_mark : ∀ c ∈ marks, isPart c = false

/-- A run of digits that is the decimal numeral of a number. Others, such as those in another base
or with a fraction, are of no use in expressions. -/
def numeralToken (cs : List Char) : Token :=
  let n := Nat.ofDigitChars 10 cs 0
  if Nat.toDigits 10 n = cs then .number n else .other (String.ofList cs)

namespace Alphabet

variable (α : Alphabet)

/-- The token that a sequence of characters is, if it is one. -/
def token? : List Char → Option Token
  | [] => none
  | c :: cs =>
      if α.isStart c then
        if cs.all α.isPart then some (.word (String.ofList (c :: cs))) else none
      else if c.isDigit then
        if cs.all fun d => α.isPart d || d == '.' then some (numeralToken (c :: cs)) else none
      else sign? (c :: cs)

def isLexeme (cs : List Char) : Bool :=
  (α.token? cs).isSome

/-- Puts the token of a lexeme before further tokens. Without any characters there is none. -/
def emit (lexeme : List Char) (rest : Option (List Token)) : Option (List Token) :=
  match α.token? lexeme with
  | some t => rest.map (t :: ·)
  | none => rest

/-- The tokens of a text of which the last lexeme has been begun. -/
def scan : List Char → List Char → Option (List Token)
  | lexeme, [] => α.emit lexeme (some [])
  | lexeme, c :: cs =>
      if α.isLexeme (lexeme ++ [c]) then scan (lexeme ++ [c]) cs
      else if c ∈ blanks then α.emit lexeme (scan [] cs)
      else if α.isLexeme [c] then α.emit lexeme (scan [c] cs)
      else none

/-- The tokens of a text, each taken as long as it goes. -/
def tokens? (text : String) : Option (List Token) :=
  α.scan [] text.toList

end Alphabet

variable {α : Alphabet}

theorem sign?_prefix : ∀ t ∈ signs, ∀ cs ∈ t.spell.inits, cs ≠ [] → (sign? cs).isSome = true := by
  decide +kernel

theorem isSome_sign?_of_append {cs ds : List Char} (hcs : cs ≠ [])
    (h : (sign? (cs ++ ds)).isSome = true) : (sign? cs).isSome = true := by
  obtain ⟨t, ht, hspell⟩ := List.find?_isSome.mp h
  refine sign?_prefix t ht cs ?_ hcs
  rw [List.mem_inits, beq_iff_eq.mp hspell]
  exact List.prefix_append cs ds

theorem isLexeme_of_append {cs ds : List Char} (hcs : cs ≠ []) (h : α.isLexeme (cs ++ ds) = true) :
    α.isLexeme cs = true := by
  cases cs with
  | nil => exact absurd rfl hcs
  | cons c cs =>
      simp only [Alphabet.isLexeme, Alphabet.token?, List.cons_append, List.all_append] at h ⊢
      split
      · rename_i hstart
        rw [if_pos hstart] at h
        split at h
        · rename_i hall
          rw [if_pos (Bool.and_eq_true_iff.mp hall).1]
          rfl
        · cases h
      · rename_i hstart
        rw [if_neg hstart] at h
        split
        · rename_i hdigit
          rw [if_pos hdigit] at h
          split at h
          · rename_i hall
            rw [if_pos (Bool.and_eq_true_iff.mp hall).1]
            rfl
          · cases h
        · rename_i hdigit
          rw [if_neg hdigit] at h
          exact isSome_sign?_of_append (List.cons_ne_nil c cs) h

theorem emit_of_token? {lexeme : List Char} {t : Token} (h : α.token? lexeme = some t)
    (rest : Option (List Token)) : α.emit lexeme rest = rest.map (t :: ·) := by
  rw [Alphabet.emit, h]

theorem scan_begun {lexeme cs : List Char} (h : α.isLexeme (lexeme ++ cs) = true)
    (rest : List Char) : α.scan lexeme (cs ++ rest) = α.scan (lexeme ++ cs) rest := by
  induction cs generalizing lexeme with
  | nil => rw [List.nil_append, List.append_nil]
  | cons c cs ih =>
      rw [List.append_cons] at h
      have hlexeme : α.isLexeme (lexeme ++ [c]) = true :=
        isLexeme_of_append (List.append_ne_nil_of_right_ne_nil _ (List.cons_ne_nil c [])) h
      rw [List.cons_append, Alphabet.scan, if_pos hlexeme, ih h, List.append_assoc]
      rfl

theorem isLexeme_of_blank {c : Char} (hc : c ∈ blanks) : α.isLexeme [c] = false := by
  have hmark : c ∈ marks := List.mem_append_right _ hc
  have hpart := α.part_of_mark c hmark
  have hstart : α.isStart c = false := by
    cases hstart : α.isStart c with
    | false => rfl
    | true => exact absurd (α.part_of_start c hstart) (by rw [hpart]; exact Bool.false_ne_true)
  have hblanks : (blanks.all fun c => !c.isDigit && (sign? [c]).isNone) = true := by
    decide +kernel
  obtain ⟨hdigit, hsign⟩ := Bool.and_eq_true_iff.mp (List.all_eq_true.mp hblanks c hc)
  rw [Bool.not_eq_true'] at hdigit
  rw [Option.isNone_iff_eq_none] at hsign
  simp [Alphabet.isLexeme, Alphabet.token?, hstart, hdigit, hsign]

theorem scan_blank {c : Char} (hc : c ∈ blanks) (rest : List Char) :
    α.scan [] (c :: rest) = α.scan [] rest := by
  have hlexeme : α.isLexeme [c] ≠ true := by
    rw [isLexeme_of_blank hc]
    exact Bool.false_ne_true
  rw [Alphabet.scan, List.nil_append, if_neg hlexeme, if_pos hc]
  rfl

theorem scan_ended {lexeme : List Char} {t : Token} (ht : α.token? lexeme = some t)
    {rest : List Char} (hrest : ∀ c ∈ rest.head?, α.isLexeme (lexeme ++ [c]) = false) :
    α.scan lexeme rest = (α.scan [] rest).map (t :: ·) := by
  cases rest with
  | nil =>
      rw [Alphabet.scan, emit_of_token? ht]
      rfl
  | cons c rest =>
      have hend : α.isLexeme (lexeme ++ [c]) ≠ true := by
        rw [hrest c rfl]
        exact Bool.false_ne_true
      rw [Alphabet.scan, if_neg hend]
      by_cases hblank : c ∈ blanks
      · rw [if_pos hblank, scan_blank hblank, emit_of_token? ht]
      · rw [if_neg hblank]
        by_cases hlexeme : α.isLexeme [c] = true
        · rw [if_pos hlexeme, emit_of_token? ht, Alphabet.scan, List.nil_append, if_pos hlexeme]
        · rw [if_neg hlexeme, Alphabet.scan, List.nil_append, if_neg hlexeme, if_neg hblank,
            if_neg hlexeme]
          rfl

/-- A token whose spelling is read as the token itself. -/
def Spelled (α : Alphabet) (t : Token) : Prop :=
  α.token? t.spell = some t

theorem Spelled.ne_nil {t : Token} (h : Spelled α t) : t.spell ≠ [] := by
  intro hnil
  rw [Spelled, hnil] at h
  cases h

/-- The next character does not go on with the spelling of a token. -/
def Ends (α : Alphabet) (t : Token) (c : Char) : Prop :=
  α.isLexeme (t.spell ++ [c]) = false

theorem scan_spell {t : Token} (ht : Spelled α t) {rest : List Char}
    (hrest : ∀ c ∈ rest.head?, Ends α t c) :
    α.scan [] (t.spell ++ rest) = (α.scan [] rest).map (t :: ·) := by
  have hlexeme : α.isLexeme ([] ++ t.spell) = true := Option.isSome_iff_exists.mpr ⟨t, ht⟩
  rw [scan_begun hlexeme, List.nil_append, scan_ended ht hrest]

/-- A token, or a blank between two of them. -/
abbrev Piece := Option Token

def spellPiece : Piece → List Char
  | none => [' ']
  | some t => t.spell

def spellPieces (ps : List Piece) : List Char :=
  ps.flatMap spellPiece

/-- Two pieces that can follow each other. -/
def Adjoins (α : Alphabet) : Piece → Piece → Prop
  | none, _ => True
  | some t, p => ∀ c ∈ (spellPiece p).head?, Ends α t c

/-- Pieces that are told from each other when they are spelled. -/
structure Legible (α : Alphabet) (ps : List Piece) : Prop where
  spelled : ∀ t, some t ∈ ps → Spelled α t
  adjoins : ps.IsChain (Adjoins α)

theorem spellPiece_ne_nil {ps : List Piece} (h : Legible α ps) {p : Piece} (hp : p ∈ ps) :
    spellPiece p ≠ [] := by
  cases p with
  | none => exact List.cons_ne_nil _ _
  | some t => exact (h.spelled t hp).ne_nil

/-- What is spelled in pieces is read as their tokens. -/
theorem scan_spellPieces {ps : List Piece} (h : Legible α ps) :
    α.scan [] (spellPieces ps) = some (ps.filterMap id) := by
  induction ps with
  | nil => rfl
  | cons p rest ih =>
      obtain ⟨hadjoins, hchain⟩ := List.isChain_cons.mp h.adjoins
      have hrest : Legible α rest :=
        ⟨fun t ht => h.spelled t (List.mem_cons_of_mem p ht), hchain⟩
      cases p with
      | none =>
          have hblank : ' ' ∈ blanks := by decide
          exact (scan_blank hblank _).trans (ih hrest)
      | some t =>
          have hends : ∀ c ∈ (spellPieces rest).head?, Ends α t c := by
            cases rest with
            | nil => simp [spellPieces]
            | cons q rest =>
                have hq := spellPiece_ne_nil hrest (p := q) List.mem_cons_self
                rw [spellPieces, List.flatMap_cons, List.head?_append_of_ne_nil _ hq]
                exact hadjoins q rfl
          rw [spellPieces, List.flatMap_cons]
          exact (scan_spell (h.spelled t List.mem_cons_self) hends).trans
            (by rw [ih hrest]; rfl)

/-- A text that is read as a name. -/
def IsName (α : Alphabet) (name : String) : Prop :=
  name.toList.head?.any α.isStart = true ∧ name.toList.all α.isPart = true

instance (name : String) : Decidable (IsName α name) :=
  inferInstanceAs (Decidable (_ ∧ _))

theorem notStart_of_notPart {c : Char} (h : α.isPart c = false) : α.isStart c = false := by
  cases hstart : α.isStart c with
  | false => rfl
  | true => exact absurd (α.part_of_start c hstart) (by rw [h]; exact Bool.false_ne_true)

theorem notDigit_of_notPart {c : Char} (h : α.isPart c = false) : c.isDigit = false := by
  cases hdigit : c.isDigit with
  | false => rfl
  | true => exact absurd (α.part_of_digit c hdigit) (by rw [h]; exact Bool.false_ne_true)

theorem notMem_marks {c : Char} (h : α.isPart c = true) : c ∉ marks := by
  intro hmark
  rw [α.part_of_mark c hmark] at h
  cases h

theorem IsName.eq_cons {name : String} (h : IsName α name) :
    ∃ c cs, name.toList = c :: cs ∧ α.isStart c = true ∧ cs.all α.isPart = true := by
  obtain ⟨hstart, hall⟩ := h
  cases hname : name.toList with
  | nil =>
      rw [hname] at hstart
      cases hstart
  | cons c cs =>
      rw [hname] at hstart hall
      exact ⟨c, cs, rfl, hstart, (Bool.and_eq_true_iff.mp hall).2⟩

theorem spelled_word {name : String} (h : IsName α name) : Spelled α (.word name) := by
  obtain ⟨c, cs, hname, hstart, hall⟩ := h.eq_cons
  rw [Spelled, Token.spell, hname, Alphabet.token?, if_pos hstart, if_pos hall, ← hname,
    String.ofList_toList]

theorem ends_word {name : String} (h : IsName α name) {c : Char} (hc : α.isPart c = false) :
    Ends α (.word name) c := by
  obtain ⟨d, ds, hname, hstart, -⟩ := h.eq_cons
  simp [Ends, Token.spell, hname, Alphabet.isLexeme, Alphabet.token?, hstart, hc]

theorem exists_digits (n : Nat) :
    ∃ c cs, Nat.toDigits 10 n = c :: cs ∧ c.isDigit = true ∧ ∀ d ∈ cs, d.isDigit = true := by
  have hdigit : ∀ d ∈ Nat.toDigits 10 n, d.isDigit = true :=
    fun d hd => Nat.isDigit_of_mem_toDigits (by decide) (by decide) hd
  cases hn : Nat.toDigits 10 n with
  | nil => exact absurd hn Nat.toDigits_ne_nil
  | cons c cs =>
      rw [hn] at hdigit
      exact ⟨c, cs, rfl, List.forall_mem_cons.mp hdigit⟩

theorem spelled_number (n : Nat) : Spelled α (.number n) := by
  obtain ⟨c, cs, hn, hdigit, hall⟩ := exists_digits n
  have hrun : (cs.all fun d => α.isPart d || d == '.') = true := by
    rw [List.all_eq_true]
    intro d hd
    rw [α.part_of_digit d (hall d hd), Bool.true_or]
  have hstart : α.isStart c ≠ true := by
    rw [α.start_of_digit c hdigit]
    exact Bool.false_ne_true
  have hvalue : numeralToken (Nat.toDigits 10 n) = .number n := by
    simp [numeralToken, Nat.ofDigitChars_toDigits]
  rw [Spelled, Token.spell, hn, Alphabet.token?, if_neg hstart, if_pos hdigit, if_pos hrun, ← hn,
    hvalue]

theorem ends_number (n : Nat) {c : Char} (hc : α.isPart c = false) (hdot : c ≠ '.') :
    Ends α (.number n) c := by
  obtain ⟨d, ds, hn, hdigit, -⟩ := exists_digits n
  have hstart := α.start_of_digit d hdigit
  simp [Ends, Token.spell, hn, Alphabet.isLexeme, Alphabet.token?, hstart, hdigit, hc, hdot]

theorem token?_of_mark {c : Char} (hc : c ∈ marks) (cs : List Char) :
    α.token? (c :: cs) = sign? (c :: cs) := by
  have hpart := α.part_of_mark c hc
  simp [Alphabet.token?, notStart_of_notPart hpart, notDigit_of_notPart hpart]

theorem mem_marks_of_sign {t : Token} (ht : t ∈ signs) {c : Char} (hc : c ∈ t.spell) : c ∈ marks :=
  List.mem_append_left _ (List.mem_flatMap.mpr ⟨t, ht, hc⟩)

theorem sign?_spell : ∀ t ∈ signs, sign? t.spell = some t ∧ t.spell ≠ [] := by
  decide +kernel

theorem spelled_sign {t : Token} (ht : t ∈ signs) : Spelled α t := by
  obtain ⟨hsign, hne⟩ := sign?_spell t ht
  obtain ⟨c, cs, hspell⟩ := List.exists_cons_of_ne_nil hne
  have hc : c ∈ marks := mem_marks_of_sign ht (hspell ▸ List.mem_cons_self)
  rw [Spelled, hspell, token?_of_mark hc, ← hspell, hsign]

/-- The characters that make a sign of two characters when they follow another one. -/
def followers (a : Char) : List Char :=
  signs.filterMap fun t =>
    match t.spell with
    | [x, y] => if x = a then some y else none
    | _ => none

theorem mem_marks_of_follower {a c : Char} (hc : c ∈ followers a) : c ∈ marks := by
  obtain ⟨t, ht, hsecond⟩ := List.mem_filterMap.mp hc
  refine mem_marks_of_sign ht ?_
  split at hsecond
  · rename_i x y hspell
    split at hsecond
    · rw [hspell, ← Option.some.inj hsecond]
      exact List.mem_cons_of_mem x List.mem_cons_self
    · cases hsecond
  · cases hsecond

theorem ends_sign {t : Token} {a : Char} (hspell : t.spell = [a]) (ha : a ∈ marks) {c : Char}
    (hc : c ∉ followers a) : Ends α t c := by
  rw [Ends, hspell, Alphabet.isLexeme, List.singleton_append, token?_of_mark ha]
  rw [Bool.eq_false_iff]
  intro hsome
  obtain ⟨t, ht, htwo⟩ := List.find?_isSome.mp hsome
  refine hc (List.mem_filterMap.mpr ⟨t, ht, ?_⟩)
  rw [beq_iff_eq.mp htwo]
  exact if_pos rfl

theorem ends_blank (t : Token) : Ends α t ' ' := by
  have hblank : ' ' ∈ blanks := by decide
  have hpart : α.isPart ' ' = false := α.part_of_mark ' ' (List.mem_append_right _ hblank)
  have hsigns : ∀ t ∈ signs, ' ' ∉ t.spell := by decide +kernel
  have hsign (cs : List Char) (hcs : ' ' ∈ cs) : sign? cs = none := by
    refine List.find?_eq_none.mpr fun t ht hspell => hsigns t ht ?_
    rw [beq_iff_eq.mp hspell]
    exact hcs
  rw [Ends]
  cases t.spell with
  | nil => exact isLexeme_of_blank hblank
  | cons c cs => simp [Alphabet.isLexeme, Alphabet.token?, hpart, hsign]

theorem isName_length : IsName α "length" := by
  have hletters : "length".toList.all Char.isAlpha = true := by decide
  have hstart (c : Char) (hc : c ∈ "length".toList) : α.isStart c = true :=
    α.start_of_letter c (List.all_eq_true.mp hletters c hc)
  refine ⟨hstart 'l' (by decide), List.all_eq_true.mpr fun c hc => ?_⟩
  exact α.part_of_start c (hstart c hc)

theorem adjoins_blank (p : Piece) : Adjoins α p none := by
  cases p with
  | none => trivial
  | some t =>
      intro c hc
      rw [← Option.some.inj hc]
      exact ends_blank t

/-- The signs that begin no other sign. -/
def brackets : List Token :=
  [.openParen, .closeParen, .openBracket, .closeBracket, .comma]

theorem adjoins_bracket {t : Token} (ht : t ∈ brackets) (p : Piece) : Adjoins α (some t) p := by
  have hlone : ∀ t ∈ brackets, t ∈ signs ∧ t.spell.length = 1 ∧ t.spell.flatMap followers = [] := by
    decide +kernel
  obtain ⟨hsign, hlength, hnone⟩ := hlone t ht
  obtain ⟨a, hspell⟩ := List.length_eq_one_iff.mp hlength
  have ha : a ∈ marks := mem_marks_of_sign hsign (hspell ▸ List.mem_cons_self)
  rw [hspell, List.flatMap_singleton] at hnone
  intro c _
  exact ends_sign hspell ha (hnone ▸ List.not_mem_nil)

theorem spelled_bracket {t : Token} (ht : t ∈ brackets) : Spelled α t := by
  have hsigns : ∀ t ∈ brackets, t ∈ signs := by decide +kernel
  exact spelled_sign (hsigns t ht)

theorem legible_nil : Legible α [] :=
  ⟨fun _ ht => absurd ht List.not_mem_nil, List.isChain_nil⟩

theorem Legible.append_cons {ps qs : List Piece} {q : Piece} (hps : Legible α ps)
    (hqs : Legible α (q :: qs)) (h : ∀ p ∈ ps.getLast?, Adjoins α p q) :
    Legible α (ps ++ q :: qs) := by
  constructor
  · intro t ht
    exact (List.mem_append.mp ht).elim (hps.spelled t) (hqs.spelled t)
  · refine List.isChain_append.mpr ⟨hps.adjoins, hqs.adjoins, fun p hp r hr => ?_⟩
    rw [← Option.some.inj hr]
    exact h p hp

theorem Legible.cons {t : Token} {ps : List Piece} (ht : Spelled α t)
    (h : ∀ p ∈ ps.head?, Adjoins α (some t) p) (hps : Legible α ps) :
    Legible α (some t :: ps) := by
  constructor
  · intro u hu
    rcases List.mem_cons.mp hu with heq | hu
    · rw [Option.some.inj heq]
      exact ht
    · exact hps.spelled u hu
  · exact List.isChain_cons.mpr ⟨h, hps.adjoins⟩

theorem legible_singleton {t : Token} (ht : Spelled α t) : Legible α [some t] :=
  legible_nil.cons ht fun p hp => absurd hp (Option.not_mem_none p)

theorem Legible.blank {ps : List Piece} (hps : Legible α ps) : Legible α (none :: ps) := by
  constructor
  · intro t ht
    exact hps.spelled t ((List.mem_cons.mp ht).resolve_left (Option.some_ne_none t))
  · exact List.isChain_cons.mpr ⟨fun _ _ => trivial, hps.adjoins⟩

theorem Legible.spaced {t : Token} {ps qs : List Piece} (ht : t ∈ signs) (hps : Legible α ps)
    (hqs : Legible α qs) : Legible α (ps ++ none :: some t :: none :: qs) := by
  have hsign : Legible α (some t :: none :: qs) := by
    refine hqs.blank.cons (spelled_sign ht) fun p hp => ?_
    rw [← Option.some.inj hp]
    exact adjoins_blank _
  exact hps.append_cons hsign.blank fun p _ => adjoins_blank p

theorem Legible.bracket {t : Token} {ps : List Piece} (ht : t ∈ brackets) (hps : Legible α ps) :
    Legible α (some t :: ps) :=
  hps.cons (spelled_bracket ht) fun p _ => adjoins_bracket ht p

theorem Legible.bracketed {t u : Token} {ps : List Piece} (ht : t ∈ brackets) (hu : u ∈ brackets)
    (hps : Legible α ps) (h : ∀ p ∈ ps.getLast?, Adjoins α p (some u)) :
    Legible α (some t :: (ps ++ [some u])) :=
  (hps.append_cons (legible_nil.bracket hu) h).bracket ht

/-- Tokens with a given spelling, all of whose words are names. -/
structure Spells (α : Alphabet) (ts : List Token) (cs : List Char) : Prop where
  spelling : ts.flatMap Token.spell = cs
  names : ∀ x, Token.word x ∈ ts → IsName α x

/-- What stands in a text between its blanks. -/
def solid (cs : List Char) : List Char :=
  cs.filter fun c => decide (c ∉ blanks)

theorem solid_append (cs ds : List Char) : solid (cs ++ ds) = solid cs ++ solid ds :=
  List.filter_append ..

theorem solid_cons {c : Char} (hc : c ∉ blanks) (cs : List Char) :
    solid (c :: cs) = c :: solid cs := by
  simp [solid, hc]

theorem solid_of_notMem {cs : List Char} (h : ∀ c ∈ cs, c ∉ blanks) : solid cs = cs :=
  List.filter_eq_self.mpr fun c hc => decide_eq_true (h c hc)

theorem sign_of_sign? {cs : List Char} {t : Token} (h : sign? cs = some t) :
    t ∈ signs ∧ t.spell = cs := by
  obtain ⟨hspell, -⟩ := List.find?_eq_some_iff_append.mp h
  exact ⟨List.mem_of_find?_eq_some h, beq_iff_eq.mp hspell⟩

theorem spell_numeralToken (cs : List Char) :
    (numeralToken cs).spell = cs ∧ ∀ x, numeralToken cs ≠ .word x := by
  unfold numeralToken
  dsimp only
  split
  · rename_i hdigits
    exact ⟨hdigits, fun _ => Token.noConfusion⟩
  · exact ⟨String.toList_ofList, fun _ => Token.noConfusion⟩

theorem spells_of_token? {cs : List Char} {t : Token} (h : α.token? cs = some t) :
    Spells α [t] cs := by
  have hspell {t : Token} {cs : List Char} (h : t.spell = cs ∧ ∀ x, t ≠ .word x) :
      Spells α [t] cs :=
    ⟨by rw [List.flatMap_singleton, h.1],
      fun x hx => absurd (List.mem_singleton.mp hx).symm (h.2 x)⟩
  cases cs with
  | nil => cases h
  | cons c cs =>
      rw [Alphabet.token?] at h
      split at h
      · rename_i hstart
        split at h
        · rename_i hall
          obtain rfl := Option.some.inj h
          refine ⟨by simp [Token.spell], fun x hx => ?_⟩
          obtain rfl : x = String.ofList (c :: cs) := Token.word.inj (List.mem_singleton.mp hx)
          rw [IsName, String.toList_ofList]
          exact ⟨hstart, Bool.and_eq_true_iff.mpr ⟨α.part_of_start c hstart, hall⟩⟩
        · cases h
      · split at h
        · split at h
          · obtain rfl := Option.some.inj h
            exact hspell (spell_numeralToken _)
          · cases h
        · obtain ⟨hmem, hsign⟩ := sign_of_sign? h
          refine hspell ⟨hsign, fun x hx => ?_⟩
          have hwords :
              (signs.all fun t => match t with | .word _ => false | _ => true) = true := by
            decide +kernel
          have hword := List.all_eq_true.mp hwords t hmem
          rw [hx] at hword
          cases hword

theorem notBlank_of_part {c : Char} (h : α.isPart c = true) : c ∉ blanks :=
  fun hc => notMem_marks h (List.mem_append_right _ hc)

theorem notBlank_of_isLexeme {cs : List Char} (h : α.isLexeme cs = true) :
    ∀ c ∈ cs, c ∉ blanks := by
  cases cs with
  | nil => exact List.forall_mem_nil _
  | cons c cs =>
      simp only [Alphabet.isLexeme, Alphabet.token?] at h
      split at h
      · rename_i hstart
        split at h
        · rename_i hall
          refine List.forall_mem_cons.mpr ⟨notBlank_of_part (α.part_of_start c hstart), ?_⟩
          exact fun d hd => notBlank_of_part (List.all_eq_true.mp hall d hd)
        · cases h
      · split at h
        · rename_i hdigit
          split at h
          · rename_i hall
            refine List.forall_mem_cons.mpr ⟨notBlank_of_part (α.part_of_digit c hdigit), ?_⟩
            intro d hd
            rcases Bool.or_eq_true_iff.mp (List.all_eq_true.mp hall d hd) with hpart | hdot
            · exact notBlank_of_part hpart
            · rw [beq_iff_eq.mp hdot]
              decide
          · cases h
        · obtain ⟨t, ht⟩ := Option.isSome_iff_exists.mp h
          obtain ⟨hmem, hspell⟩ := sign_of_sign? ht
          have hsigns : (signs.all fun t => t.spell.all fun c => decide (c ∉ blanks)) = true := by
            decide +kernel
          intro d hd
          rw [← hspell] at hd
          exact of_decide_eq_true (List.all_eq_true.mp (List.all_eq_true.mp hsigns t hmem) d hd)

theorem spells_of_emit {lexeme cs : List Char} (hlexeme : lexeme = [] ∨ α.isLexeme lexeme = true)
    {rest : Option (List Token)} (hrest : ∀ us ∈ rest, Spells α us cs) {ts : List Token}
    (h : α.emit lexeme rest = some ts) : Spells α ts (lexeme ++ cs) := by
  unfold Alphabet.emit at h
  cases ht : α.token? lexeme with
  | some t =>
      rw [ht] at h
      obtain ⟨us, hus, rfl⟩ := Option.map_eq_some_iff.mp h
      obtain ⟨hspelling, hnames⟩ := hrest us hus
      obtain ⟨hlexeme, hname⟩ := spells_of_token? ht
      constructor
      · rw [List.flatMap_cons, hspelling, ← hlexeme, List.flatMap_singleton]
      · intro x hx
        rcases List.mem_cons.mp hx with hx | hx
        · exact hname x (List.mem_singleton.mpr hx)
        · exact hnames x hx
  | none =>
      rw [ht] at h
      have hnil : lexeme = [] := by
        refine hlexeme.resolve_right ?_
        rw [Alphabet.isLexeme, ht]
        exact Bool.false_ne_true
      rw [hnil, List.nil_append]
      exact hrest ts h

/-- The tokens of a text spell what stands between its blanks. -/
theorem spells_of_scan {lexeme cs : List Char} (hlexeme : lexeme = [] ∨ α.isLexeme lexeme = true)
    {ts : List Token} (h : α.scan lexeme cs = some ts) : Spells α ts (lexeme ++ solid cs) := by
  induction cs generalizing lexeme ts with
  | nil =>
      refine spells_of_emit hlexeme (fun us hus => ?_) h
      rw [← Option.some.inj hus]
      exact ⟨rfl, fun _ hx => absurd hx List.not_mem_nil⟩
  | cons c cs ih =>
      unfold Alphabet.scan at h
      split at h
      · rename_i hlonger
        have hc := notBlank_of_isLexeme hlonger c (by simp)
        rw [solid_cons hc, List.append_cons]
        exact ih (.inr hlonger) h
      · split at h
        · rename_i hblank
          have hskip : solid (c :: cs) = solid cs := by simp [solid, hblank]
          rw [hskip]
          exact spells_of_emit hlexeme (fun us hus => ih (.inl rfl) hus) h
        · rename_i hc
          split at h
          · rename_i hbegins
            rw [solid_cons hc]
            exact spells_of_emit hlexeme (fun us hus => ih (.inr hbegins) hus) h
          · cases h

theorem spells_of_tokens? {text : String} {ts : List Token} (h : α.tokens? text = some ts) :
    Spells α ts (solid text.toList) :=
  spells_of_scan (.inl rfl) h

end FragmentSynthesis.Proofs.SourceTokens
