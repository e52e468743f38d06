import FragmentSynthesis.Proofs.EscapedLiterals
import FragmentSynthesis.Proofs.SameLines

namespace FragmentSynthesis.Proofs.UnbrokenText

open FragmentSynthesis.Binary64
open FragmentSynthesis.Components
open FragmentSynthesis.DecimalText
open FragmentSynthesis.Expression
open FragmentSynthesis.ExpressionText
open FragmentSynthesis.Faults
open FragmentSynthesis.LiteralEscape
open FragmentSynthesis.Operators
open FragmentSynthesis.Proofs.EscapedLiterals
open FragmentSynthesis.Proofs.SameLines
open FragmentSynthesis.Proofs.UniqueDecoding
open FragmentSynthesis.QuotedText
open FragmentSynthesis.Statement
open FragmentSynthesis.StatementText
open FragmentSynthesis.TypeName
open FragmentSynthesis.Values

/-- A text without a line break. -/
def Unbroken (text : String) : Prop :=
  '\n' ∉ text.toList

instance (text : String) : Decidable (Unbroken text) :=
  inferInstanceAs (Decidable ('\n' ∉ text.toList))

@[simp] theorem unbroken_append {s t : String} :
    Unbroken (s ++ t) ↔ Unbroken s ∧ Unbroken t := by
  rw [Unbroken, String.toList_append, List.mem_append, not_or]
  exact Iff.rfl

@[simp] theorem unbroken_ofList {cs : List Char} : Unbroken (String.ofList cs) ↔ '\n' ∉ cs := by
  rw [Unbroken, String.toList_ofList]

theorem unbroken_intercalate {separator : String} (hseparator : Unbroken separator)
    {texts : List String} (h : ∀ text ∈ texts, Unbroken text) :
    Unbroken (separator.intercalate texts) := by
  induction texts with
  | nil => exact List.not_mem_nil
  | cons text rest ih =>
      obtain ⟨htext, hrest⟩ := List.forall_mem_cons.mp h
      cases rest with
      | nil => rwa [String.intercalate_singleton]
      | cons next rest =>
          rw [String.intercalate_cons_cons, unbroken_append, unbroken_append]
          exact ⟨⟨htext, hseparator⟩, ih hrest⟩

theorem digitChar_ne_newline : ∀ n < 16, '\n' ≠ Nat.digitChar n := by
  decide

theorem newline_notMem_toDigits {base : Nat} (hbase : 1 < base ∧ base ≤ 16) (n : Nat) :
    '\n' ∉ Nat.toDigits base n := by
  obtain ⟨hone, hsixteen⟩ := hbase
  induction n using Nat.strongRecOn with
  | ind n ih =>
      rw [Nat.toDigits_eq_if hone]
      split
      · rename_i hlt
        rw [List.mem_singleton]
        exact digitChar_ne_newline n (Nat.lt_of_lt_of_le hlt hsixteen)
      · rename_i hle
        have hquotient : n / base < n := Nat.div_lt_self (by omega) hone
        have hrest : n % base < base := Nat.mod_lt n (by omega)
        rw [List.mem_append, List.mem_singleton, not_or]
        exact ⟨ih _ hquotient, digitChar_ne_newline _ (Nat.lt_of_lt_of_le hrest hsixteen)⟩

theorem unbroken_repr (n : Nat) : Unbroken n.repr := by
  rw [Unbroken, Nat.toList_repr]
  exact newline_notMem_toDigits (by decide) n

theorem unbroken_int (n : Int) : Unbroken (toString n) := by
  cases n with
  | ofNat n => exact unbroken_repr n
  | negSucc n => exact unbroken_append.mpr ⟨by decide, unbroken_repr (n + 1)⟩

theorem unbroken_withSign (negative : Bool) {text : String} (h : Unbroken text) :
    Unbroken (withSign negative text) := by
  cases negative with
  | false => exact h
  | true => exact unbroken_append.mpr ⟨by decide, h⟩

theorem unbroken_zeros (n : Nat) : Unbroken (zeros n) := by
  rw [zeros, unbroken_ofList]
  exact fun h => absurd (List.eq_of_mem_replicate h) (by decide)

theorem newline_notMem_trimZeros {ds : List Char} (h : '\n' ∉ ds) : '\n' ∉ trimZeros ds := by
  intro hmem
  rw [trimZeros, List.mem_reverse] at hmem
  exact h (List.mem_reverse.mp ((List.dropWhile_sublist _).mem hmem))

theorem unbroken_positional {ds : List Char} (h : '\n' ∉ ds) (order : Int) :
    Unbroken (positional ds order) := by
  have htake (n : Nat) : '\n' ∉ ds.take n := fun hmem => h (List.mem_of_mem_take hmem)
  have hdrop (n : Nat) : '\n' ∉ ds.drop n := fun hmem => h (List.mem_of_mem_drop hmem)
  have hpoint : Unbroken "." ∧ Unbroken "0." ∧ Unbroken "0" := by decide
  unfold positional
  split
  · simp [unbroken_zeros, h, hpoint]
  · dsimp only
    split <;> simp [unbroken_zeros, htake, hdrop, hpoint]

theorem unbroken_exponential {ds : List Char} (h : '\n' ∉ ds) (order : Int) :
    Unbroken (exponential ds order) := by
  have htake (n : Nat) : '\n' ∉ ds.take n := fun hmem => h (List.mem_of_mem_take hmem)
  have htail : '\n' ∉ ds.tail := fun hmem => h (List.mem_of_mem_tail hmem)
  have hparts : Unbroken "" ∧ Unbroken "." ∧ Unbroken "0" ∧ Unbroken "e-" ∧ Unbroken "e+" := by
    decide
  unfold exponential
  dsimp only
  split_ifs <;> simp [unbroken_repr, htake, htail, hparts]

theorem unbroken_shortest (x : Double) : Unbroken (shortest x) := by
  have hwords : Unbroken "nan" ∧ Unbroken "inf" ∧ Unbroken "0.0" := by decide
  cases x with
  | nan => exact hwords.1
  | infinite negative => exact unbroken_withSign negative hwords.2.1
  | finite negative mantissa exponent =>
      have hdigits (n : Nat) : '\n' ∉ trimZeros (Nat.toDigits 10 n) :=
        newline_notMem_trimZeros (newline_notMem_toDigits (by decide) n)
      simp only [shortest]
      split
      · exact unbroken_withSign negative hwords.2.2
      · refine unbroken_withSign negative ?_
        split_ifs
        · exact unbroken_positional (hdigits _) _
        · exact unbroken_exponential (hdigits _) _

theorem newline_notMem_quotedChar {quote : Char} (hquote : quote ≠ '\n') (c : Char) :
    '\n' ∉ QuotedText.escapeChar quote c := by
  have hhex : '\n' ∉ hexDigits 2 c.toNat := by
    rw [hexDigits, List.mem_append, not_or]
    exact ⟨fun h => absurd (List.eq_of_mem_replicate h) (by decide),
      newline_notMem_toDigits (by decide) _⟩
  unfold QuotedText.escapeChar
  split_ifs with h₁ h₂ h₃ h₄ h₅
  · rcases h₁ with rfl | rfl
    · simp [Ne.symm hquote]
    · decide
  · decide
  · decide
  · decide
  · simp [hhex]
  · simp [Ne.symm h₂]

theorem unbroken_quoted (text : String) : Unbroken (quoted text) := by
  have hquote : quoteFor text ≠ '\n' := by
    unfold quoteFor
    split <;> decide
  rw [quoted, unbroken_ofList]
  simp only [List.cons_append, List.mem_cons, List.mem_append, List.mem_flatMap, List.not_mem_nil,
    or_false, not_or, not_exists, not_and]
  exact ⟨Ne.symm hquote, fun c _ => newline_notMem_quotedChar hquote c, Ne.symm hquote⟩

mutual

theorem unbroken_describe (v : Value) : Unbroken v.describe := by
  cases v with
  | null => decide
  | bool b => cases b <;> decide
  | int n => exact unbroken_int n
  | float x => exact unbroken_shortest x
  | text s => exact unbroken_quoted s
  | list items =>
      have hitems := unbroken_intercalate (show Unbroken ", " by decide)
        (unbroken_describeItems items)
      have hbrackets : Unbroken "[" ∧ Unbroken "]" := by decide
      simp [Value.describe, hitems, hbrackets]
  | mapping entries =>
      have hentries := unbroken_intercalate (show Unbroken ", " by decide)
        (unbroken_describeEntries entries)
      have hbraces : Unbroken "\x7b" ∧ Unbroken "\x7d" := by decide
      simp [Value.describe, hentries, hbraces]

theorem unbroken_describeItems (items : List Value) :
    ∀ text ∈ describeItems items, Unbroken text := by
  cases items with
  | nil => exact List.forall_mem_nil _
  | cons v rest => exact List.forall_mem_cons.mpr ⟨unbroken_describe v, unbroken_describeItems rest⟩

theorem unbroken_describeEntries (entries : List (String × Value)) :
    ∀ text ∈ describeEntries entries, Unbroken text := by
  match entries with
  | [] => exact List.forall_mem_nil _
  | (key, v) :: rest =>
      have hcolon : Unbroken ": " := by decide
      refine List.forall_mem_cons.mpr ⟨?_, unbroken_describeEntries rest⟩
      simp [unbroken_quoted, unbroken_describe v, hcolon]

end

theorem unbroken_delimited {quote : Char} (hquote : quote ∈ quotes) (s : String) :
    Unbroken (delimited quote s) := by
  have hne : '\n' ≠ quote := by
    rintro rfl
    exact absurd hquote (by decide)
  rw [delimited, unbroken_ofList]
  simp [hne, (break_notMem_escape hquote s.toList).1]

theorem unbroken_of_double {x : Except Fault Double} {f : Double → String}
    (hf : ∀ x, Unbroken (f x)) {text : String} (h : x.map f = .ok text) : Unbroken text := by
  cases x with
  | error fault => cases h
  | ok x => exact Except.ok.inj h ▸ hf x

/-- A constant that is not written in quotes is a word, or it is written as its type says. -/
theorem unbroken_bare {value : Value} {type text : String} (hquote : quoteOf? value type = none)
    (h : literalText value type = .ok text) : Unbroken text := by
  have hwords : Unbroken "null" ∧ Unbroken "true" ∧ Unbroken "false" := by decide
  have hsuffixes : Unbroken "L" ∧ Unbroken "f" := by decide
  have hfloat (x : Double) : Unbroken (shortest x ++ "f") :=
    unbroken_append.mpr ⟨unbroken_shortest x, hsuffixes.2⟩
  have hlong : Unbroken (value.describe ++ "L") :=
    unbroken_append.mpr ⟨unbroken_describe value, hsuffixes.1⟩
  cases value with
  | null => exact Except.ok.inj h ▸ hwords.1
  | bool b => cases b <;> exact Except.ok.inj h ▸ (by simp [hwords])
  | text s => by_cases htype : type = "char" <;> simp [quoteOf?, htype] at hquote
  | _ =>
      simp only [quoteOf?] at hquote
      simp only [literalText] at h
      split_ifs at hquote h
      · exact Except.ok.inj h ▸ hlong
      · exact unbroken_of_double hfloat h
      · exact unbroken_of_double unbroken_shortest h
      · exact Except.ok.inj h ▸ unbroken_describe _

theorem unbroken_literalText {value : Value} {type text : String}
    (h : literalText value type = .ok text) : Unbroken text := by
  cases hquote : quoteOf? value type with
  | some quote =>
      obtain ⟨hmem, htext⟩ := literalText_of_quote hquote
      rw [← Except.ok.inj (htext.symm.trans h)]
      exact unbroken_delimited hmem _
  | none => exact unbroken_bare hquote h

/-- The names and the type that a component shows. -/
def componentNames (c : Component) : List String :=
  c.name.toList ++ (c.simpleName.toList ++ c.declaringType.toList)

mutual

/-- The names and types that the text of an expression shows. -/
def shownIn : Expr → List String
  | .literal .. => []
  | .variable name _ => [name]
  | .unary _ operand => shownIn operand
  | .binary _ left right => shownIn left ++ shownIn right
  | .use component none args => componentNames component ++ shownInEach args
  | .use component (some receiver) args =>
      componentNames component ++ (shownIn receiver ++ shownInEach args)
  | .foreign _ => []

def shownInEach : List Expr → List String
  | [] => []
  | e :: rest => shownIn e ++ shownInEach rest

end

def shownInTest : Test → List String
  | .concrete e => shownIn e
  | .angelic (some e) => shownIn e
  | _ => []

theorem unbroken_shown {name : Option String} (h : ∀ text ∈ name, Unbroken text) :
    Unbroken (shown name) := by
  cases name with
  | none => decide
  | some text => exact h text rfl

theorem unbroken_styled {type : String} (h : Unbroken type) (style : NameStyle) :
    Unbroken (styled style type) :=
  newline_notMem_styled h style

section

variable {c : Component} (h : ∀ name ∈ componentNames c, Unbroken name) (style : NameStyle)

include h

theorem unbroken_displayName : Unbroken (c.displayName style) := by
  obtain ⟨hname, hothers⟩ := List.forall_mem_append.mp h
  obtain ⟨hsimple, -⟩ := List.forall_mem_append.mp hothers
  cases style with
  | qualified => exact unbroken_shown fun text ht => hname text (Option.mem_toList.mpr ht)
  | simple => exact unbroken_shown fun text ht => hsimple text (Option.mem_toList.mpr ht)

theorem unbroken_displayType : Unbroken (c.displayType style) := by
  obtain ⟨-, hothers⟩ := List.forall_mem_append.mp h
  obtain ⟨-, htype⟩ := List.forall_mem_append.mp hothers
  have hdeclaring : ∀ text ∈ c.declaringType, Unbroken text :=
    fun text ht => htype text (Option.mem_toList.mpr ht)
  cases style with
  | qualified => exact unbroken_shown hdeclaring
  | simple =>
      rw [Component.displayType]
      cases hc : c.declaringType with
      | none => decide
      | some type => exact unbroken_styled (hdeclaring type hc) .simple

end

/-- A text that may be missing is on one line if it is there. -/
def OnOneLine (x : Except Fault String) : Prop :=
  ∀ text, x = .ok text → Unbroken text

theorem onOneLine_ok {text : String} (h : Unbroken text) : OnOneLine (.ok text) := by
  rintro _ ⟨⟩
  exact h

theorem onOneLine_error (fault : Fault) : OnOneLine (.error fault) := by
  rintro _ ⟨⟩

theorem onOneLine_bind {α : Type} {x : Except Fault α} {f : α → Except Fault String}
    (h : ∀ a, x = .ok a → OnOneLine (f a)) : OnOneLine (x >>= f) := by
  cases x with
  | error fault => exact onOneLine_error fault
  | ok a => exact h a rfl

theorem unbroken_wrap (parens : Bool) {text : String} (h : Unbroken text) :
    Unbroken (wrap parens text) := by
  have hparens : Unbroken "(" ∧ Unbroken ")" := by decide
  cases parens with
  | false => exact h
  | true => simp [wrap, h, hparens]

theorem onOneLine_leftText (parent : Precedence) (child : Except Fault Precedence)
    {text : Except Fault String} (h : OnOneLine text) : OnOneLine (leftText parent child text) :=
  onOneLine_bind fun _ _ => onOneLine_bind fun text htext =>
    onOneLine_ok (unbroken_wrap _ (h text htext))

theorem onOneLine_rightText (parent : Precedence) (child : Except Fault Precedence)
    {text : Except Fault String} (h : OnOneLine text) : OnOneLine (rightText parent child text) :=
  onOneLine_bind fun _ _ => onOneLine_bind fun text htext =>
    onOneLine_ok (unbroken_wrap _ (h text htext))

theorem onOneLine_operandText (op : UnaryOp) (child : Except Fault Precedence)
    {text : Except Fault String} (h : OnOneLine text) : OnOneLine (operandText op child text) :=
  onOneLine_bind fun text htext => onOneLine_bind fun _ _ =>
    onOneLine_ok (unbroken_wrap _ (h text htext))

theorem onOneLine_pick {texts : List (Except Fault String)} (h : ∀ x ∈ texts, OnOneLine x)
    (i : Nat) : OnOneLine (pick texts i) := by
  unfold pick
  cases hi : texts[i]? with
  | none => exact onOneLine_error _
  | some x => exact h x (List.mem_of_getElem? hi)

theorem onOneLine_arrayText (args : List Expr) {texts : List (Except Fault String)}
    (h : ∀ x ∈ texts, OnOneLine x) : OnOneLine (arrayText args texts) := by
  cases args with
  | nil => exact onOneLine_error _
  | cons array rest => exact onOneLine_leftText _ _ (onOneLine_pick h 0)

theorem unbroken_of_sequence {xs : List (Except Fault String)} (h : ∀ x ∈ xs, OnOneLine x)
    {texts : List String} (htexts : ExpressionText.sequence xs = .ok texts) :
    ∀ text ∈ texts, Unbroken text := by
  induction xs generalizing texts with
  | nil =>
      cases htexts
      exact List.forall_mem_nil _
  | cons x rest ih =>
      obtain ⟨hfirst, hothers⟩ := List.forall_mem_cons.mp h
      obtain ⟨text, htext, htexts⟩ := ok_of_bind htexts
      obtain ⟨others, hrest, htexts⟩ := ok_of_bind htexts
      cases htexts
      exact List.forall_mem_cons.mpr ⟨hfirst text htext, ih hothers hrest⟩

theorem onOneLine_useText {c : Component} (hc : ∀ name ∈ componentNames c, Unbroken name)
    (style : NameStyle) {receiver : Option (Except Fault String)}
    (hreceiver : ∀ x ∈ receiver, OnOneLine x) {array : Except Fault String}
    (harray : OnOneLine array) {args : List (Except Fault String)}
    (hargs : ∀ x ∈ args, OnOneLine x) : OnOneLine (useText style c receiver array args) := by
  have hname := unbroken_displayName hc style
  have htype := unbroken_displayType hc style
  have hfirst : OnOneLine (receiver.getD (.ok (c.displayType style))) := by
    cases receiver with
    | none => exact onOneLine_ok htype
    | some x => exact hreceiver x rfl
  have hlist {texts : List String} (htexts : ExpressionText.sequence args = .ok texts) :
      Unbroken (", ".intercalate texts) :=
    unbroken_intercalate (by decide) (unbroken_of_sequence hargs htexts)
  have hsigns : Unbroken "." ∧ Unbroken "(" ∧ Unbroken ")" ∧ Unbroken "[" ∧ Unbroken "]" ∧
      Unbroken "] = " ∧ Unbroken "new " ∧ Unbroken ".length" := by decide
  unfold useText
  split
  · refine onOneLine_bind fun text htext => onOneLine_bind fun texts htexts => onOneLine_ok ?_
    simp [hname, hfirst text htext, hlist htexts, hsigns]
  · refine onOneLine_bind fun texts htexts => onOneLine_ok ?_
    simp [hname, hlist htexts, hsigns]
  · dsimp only
    split
    · exact onOneLine_ok (by simp [hname, htype, hsigns])
    · refine onOneLine_bind fun text htext => onOneLine_ok ?_
      simp [hname, hfirst text htext, hsigns]
  · refine onOneLine_bind fun text htext => onOneLine_bind fun index hindex => onOneLine_ok ?_
    simp [harray text htext, onOneLine_pick hargs 1 index hindex, hsigns]
  · refine onOneLine_bind fun text htext => onOneLine_bind fun index hindex =>
      onOneLine_bind fun value hvalue => onOneLine_ok ?_
    simp [harray text htext, onOneLine_pick hargs 1 index hindex,
      onOneLine_pick hargs 2 value hvalue, hsigns]
  · refine onOneLine_bind fun text htext => onOneLine_ok ?_
    simp [harray text htext, hsigns]

theorem unbroken_unarySymbol (op : UnaryOp) : Unbroken op.symbol := by
  cases op <;> decide

theorem unbroken_binarySymbol (op : BinaryOp) : Unbroken op.symbol := by
  cases op <;> decide

variable {style : NameStyle}

mutual

theorem onOneLine_render (e : Expr) (hknown : e.isKnown = true)
    (hnames : ∀ name ∈ shownIn e, Unbroken name) : OnOneLine (render style e) := by
  cases e with
  | literal value type => exact fun text h => unbroken_literalText h
  | «variable» name type => exact onOneLine_ok (hnames name List.mem_cons_self)
  | unary op operand =>
      have hoperand := onOneLine_operandText op (precedence operand)
        (onOneLine_render operand hknown hnames)
      refine onOneLine_bind fun text htext => onOneLine_ok ?_
      exact unbroken_append.mpr ⟨unbroken_unarySymbol op, hoperand text htext⟩
  | binary op left right =>
      obtain ⟨hleft, hright⟩ := Bool.and_eq_true_iff.mp hknown
      obtain ⟨hleftNames, hrightNames⟩ := List.forall_mem_append.mp hnames
      have hfirst := onOneLine_leftText op.precedence (precedence left)
        (onOneLine_render left hleft hleftNames)
      have hsecond := onOneLine_rightText op.precedence (precedence right)
        (onOneLine_render right hright hrightNames)
      have hblank : Unbroken " " := by decide
      refine onOneLine_bind fun text htext => onOneLine_bind fun other hother => onOneLine_ok ?_
      simp [hfirst text htext, hsecond other hother, unbroken_binarySymbol, hblank]
  | use component receiver args =>
      cases receiver with
      | none =>
          obtain ⟨hc, hothers⟩ := List.forall_mem_append.mp hnames
          have hargs := onOneLine_renderEach args hknown hothers
          exact onOneLine_useText hc style (fun _ h => absurd h (Option.not_mem_none _))
            (onOneLine_arrayText args hargs) hargs
      | some receiver =>
          obtain ⟨hreceiver, hrest⟩ := Bool.and_eq_true_iff.mp hknown
          obtain ⟨hc, hothers⟩ := List.forall_mem_append.mp hnames
          obtain ⟨hreceiverNames, hargNames⟩ := List.forall_mem_append.mp hothers
          have hfirst := onOneLine_render receiver hreceiver hreceiverNames
          have hargs := onOneLine_renderEach args hrest hargNames
          refine onOneLine_useText hc style (fun x hx => ?_) (onOneLine_arrayText args hargs) hargs
          rw [← Option.some.inj hx]
          exact onOneLine_leftText _ _ hfirst
  | foreign f => cases hknown

theorem onOneLine_renderEach (args : List Expr) (hknown : argsKnown args = true)
    (hnames : ∀ name ∈ shownInEach args, Unbroken name) :
    ∀ x ∈ renderEach style args, OnOneLine x := by
  cases args with
  | nil => exact List.forall_mem_nil _
  | cons e rest =>
      obtain ⟨he, hrest⟩ := Bool.and_eq_true_iff.mp hknown
      obtain ⟨hfirst, hothers⟩ := List.forall_mem_append.mp hnames
      exact List.forall_mem_cons.mpr
        ⟨onOneLine_render e he hfirst, onOneLine_renderEach rest hrest hothers⟩

end

theorem onOneLine_renderTest (test : Test) (hknown : test.isKnown = true)
    (hnames : ∀ name ∈ shownInTest test, Unbroken name) : OnOneLine (renderTest style test) := by
  cases test with
  | concrete e => exact onOneLine_render e hknown hnames
  | angelic remembered =>
      cases remembered with
      | none => exact onOneLine_ok (by decide)
      | some e =>
          refine onOneLine_bind fun text htext => onOneLine_ok ?_
          exact unbroken_append.mpr ⟨by decide, onOneLine_render e hknown hnames text htext⟩
  | blank => cases hknown
  | unknown => cases hknown

end FragmentSynthesis.Proofs.UnbrokenText
