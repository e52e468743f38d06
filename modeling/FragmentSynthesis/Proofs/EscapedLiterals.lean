import FragmentSynthesis.Proofs.Outlines
import FragmentSynthesis.StatementText

namespace FragmentSynthesis.Proofs.EscapedLiterals

open FragmentSynthesis.Expression
open FragmentSynthesis.ExpressionText
open FragmentSynthesis.LiteralEscape
open FragmentSynthesis.Proofs.Outlines
open FragmentSynthesis.Statement
open FragmentSynthesis.StatementText
open FragmentSynthesis.TypeName
open FragmentSynthesis.Values

/-- The units of a text: single characters, and backslashes with the character behind them. There
are none if the text ends behind such a backslash. -/
def units : List Char → Option (List (List Char))
  | [] => some []
  | [c] => if c = '\\' then none else some [[c]]
  | c :: d :: rest =>
      if c = '\\' then (units rest).map ([c, d] :: ·)
      else (units (d :: rest)).map ([c] :: ·)

/-- The escapes between quotes of some sort, by what stands behind the backslash, with the
characters that they stand for. -/
def escapes (quote : Char) : List (Char × Char) :=
  [(quote, quote), ('\\', '\\'), ('n', '\n'), ('t', '\t'), ('r', '\r'), ('b', '\x08'),
    ('f', '\x0c')]

/-- The character that a unit stands for. A backslash with another character behind it is no
escape. -/
def meaning? (quote : Char) : List Char → Option Char
  | [c] => some c
  | [_, letter] => ((escapes quote).find? fun entry => entry.1 == letter).map Prod.snd
  | _ => none

/-- A text with each escape replaced by the character it stands for. -/
def unescape (quote : Char) (cs : List Char) : Option (List Char) :=
  (units cs).bind fun us => us.mapM (meaning? quote)

/-- The quotes around texts and around characters. -/
def quotes : List Char :=
  ['"', '\'']

theorem units_plain {c : Char} (hc : c ≠ '\\') (rest : List Char) :
    units (c :: rest) = (units rest).map ([c] :: ·) := by
  cases rest with
  | nil => simp only [units, if_neg hc, Option.map_some]
  | cons d rest => rw [units, if_neg hc]

theorem units_backslash (letter : Char) (rest : List Char) :
    units ('\\' :: letter :: rest) = (units rest).map (['\\', letter] :: ·) := by
  rw [units, if_pos rfl]

theorem escapeChar_cases (quote c : Char) :
    (∃ letter, escapeChar quote c = ['\\', letter] ∧ (letter, c) ∈ escapes quote) ∨
      (escapeChar quote c = [c] ∧ c ≠ quote ∧ c ∉ ['\\', '\n', '\r']) := by
  unfold escapeChar
  by_cases hquote : c = quote
  · rw [if_pos hquote, hquote]
    exact .inl ⟨quote, rfl, List.mem_cons_self⟩
  · rw [if_neg hquote]
    cases hletter : letter? c with
    | none =>
        refine .inr ⟨rfl, hquote, fun hc => ?_⟩
        have hescaped : (['\\', '\n', '\r'].all fun c => (letter? c).isSome) = true := by decide
        have hsome := List.all_eq_true.mp hescaped c hc
        rw [hletter] at hsome
        cases hsome
    | some letter =>
        refine .inl ⟨letter, rfl, List.mem_cons_of_mem _ ?_⟩
        unfold letter? at hletter
        split_ifs at hletter with h₁ h₂ h₃ h₄ h₅ h₆ <;> cases hletter <;> simp [*]

theorem meaning?_escapeChar {quote : Char} (hquote : quote ∈ quotes) (c : Char) :
    meaning? quote (escapeChar quote c) = some c := by
  have hletters : ∀ quote ∈ quotes, ∀ entry ∈ escapes quote,
      meaning? quote ['\\', entry.1] = some entry.2 := by
    have hall : (quotes.all fun quote => (escapes quote).all fun entry =>
        meaning? quote ['\\', entry.1] == some entry.2) = true := by decide
    simpa only [List.all_eq_true, beq_iff_eq] using hall
  rcases escapeChar_cases quote c with ⟨letter, hescape, hentry⟩ | ⟨hescape, -⟩
  · rw [hescape]
    exact hletters quote hquote _ hentry
  · rw [hescape, meaning?]

theorem escapeChar_ne_quote (quote c : Char) : escapeChar quote c ≠ [quote] := by
  rcases escapeChar_cases quote c with ⟨letter, hescape, -⟩ | ⟨hescape, hc, -⟩
  · rw [hescape]
    simp
  · rw [hescape]
    exact fun h => hc (List.head_eq_of_cons_eq h)

theorem units_escapeChar (quote c : Char) (rest : List Char) :
    units (escapeChar quote c ++ rest) = (units rest).map (escapeChar quote c :: ·) := by
  rcases escapeChar_cases quote c with ⟨letter, hescape, -⟩ | ⟨hescape, -, hc⟩
  · rw [hescape]
    exact units_backslash letter rest
  · rw [hescape]
    exact units_plain (fun h => hc (h ▸ List.mem_cons_self)) rest

theorem break_notMem_escapeChar {quote : Char} (hquote : quote ∈ quotes) (c : Char) :
    '\n' ∉ escapeChar quote c ∧ '\r' ∉ escapeChar quote c := by
  have hletters : ∀ quote ∈ quotes, ∀ entry ∈ escapes quote,
      '\n' ∉ ['\\', entry.1] ∧ '\r' ∉ ['\\', entry.1] := by
    have hall : (quotes.all fun quote => (escapes quote).all fun entry =>
        decide ('\n' ∉ ['\\', entry.1] ∧ '\r' ∉ ['\\', entry.1])) = true := by decide
    simpa only [List.all_eq_true, decide_eq_true_eq] using hall
  rcases escapeChar_cases quote c with ⟨letter, hescape, hentry⟩ | ⟨hescape, -, hc⟩
  · rw [hescape]
    exact hletters quote hquote _ hentry
  · rw [hescape, List.mem_singleton, List.mem_singleton]
    constructor
    · rintro rfl
      exact hc (by decide)
    · rintro rfl
      exact hc (by decide)

/-- An escaped text falls into the escapes of its characters, whatever follows it. -/
theorem units_escape (quote : Char) (cs rest : List Char) :
    units (escape quote cs ++ rest) = (units rest).map (cs.map (escapeChar quote) ++ ·) := by
  induction cs with
  | nil => simp
  | cons c cs ih =>
      rw [escape_cons, List.append_assoc, units_escapeChar, ih, Option.map_map]
      rfl

theorem quote_notMem_units (quote : Char) (cs : List Char) :
    [quote] ∉ cs.map (escapeChar quote) := by
  intro hmem
  obtain ⟨c, -, hc⟩ := List.mem_map.mp hmem
  exact escapeChar_ne_quote quote c hc

theorem break_notMem_escape {quote : Char} (hquote : quote ∈ quotes) (cs : List Char) :
    '\n' ∉ escape quote cs ∧ '\r' ∉ escape quote cs := by
  constructor
  · intro hmem
    obtain ⟨c, -, hc⟩ := List.mem_flatMap.mp hmem
    exact (break_notMem_escapeChar hquote c).1 hc
  · intro hmem
    obtain ⟨c, -, hc⟩ := List.mem_flatMap.mp hmem
    exact (break_notMem_escapeChar hquote c).2 hc

theorem mapM_meaning? {quote : Char} (hquote : quote ∈ quotes) (cs : List Char) :
    (cs.map (escapeChar quote)).mapM (meaning? quote) = some cs := by
  induction cs with
  | nil => rfl
  | cons c cs ih =>
      rw [List.map_cons, List.mapM_cons, meaning?_escapeChar hquote, ih]
      rfl

theorem unescape_escape {quote : Char} (hquote : quote ∈ quotes) (cs : List Char) :
    unescape quote (escape quote cs) = some cs := by
  have hunits : units (escape quote cs) = some (cs.map (escapeChar quote)) := by
    have h := units_escape quote cs []
    rw [List.append_nil] at h
    rw [h, units, Option.map_some, List.append_nil]
  rw [unescape, hunits]
  exact mapM_meaning? hquote cs

theorem escape_injective {quote : Char} (hquote : quote ∈ quotes) :
    Function.Injective (escape quote) := by
  intro cs ds h
  have hunescaped := congrArg (unescape quote) h
  rw [unescape_escape hquote, unescape_escape hquote] at hunescaped
  exact Option.some.inj hunescaped

/-- What is escaped between quotes of some sort: it can be read back, breaks no line, and is read
from the left without an end within an escape and without a bare quote. -/
structure Enclosed (quote : Char) (cs escaped : List Char) : Prop where
  unescaped : unescape quote escaped = some cs
  unbroken : '\n' ∉ escaped ∧ '\r' ∉ escaped
  unquoted : ∃ us, units escaped = some us ∧ [quote] ∉ us

theorem enclosed_escape {quote : Char} (hquote : quote ∈ quotes) (cs : List Char) :
    Enclosed quote cs (escape quote cs) where
  unescaped := unescape_escape hquote cs
  unbroken := break_notMem_escape hquote cs
  unquoted := by
    refine ⟨cs.map (escapeChar quote), ?_, quote_notMem_units quote cs⟩
    simpa [units] using units_escape quote cs []

/-- The quote in which a constant is written, if it is written in quotes. -/
def quoteOf? (value : Value) (type : String) : Option Char :=
  match value with
  | .null => none
  | .bool _ => none
  | value =>
      if type = "char" then some '\''
      else
        match value with
        | .text _ => some '"'
        | _ => none

/-- A text between quotes of which the second is the first bare quote behind the other. -/
structure Quoted (quote : Char) (body : List Char) (text : String) : Prop where
  eq : text.toList = quote :: (body ++ [quote])
  closed : ∃ us, units (body ++ [quote]) = some (us ++ [[quote]]) ∧ [quote] ∉ us

theorem quoted_delimited {quote : Char} (hquote : quote ∈ quotes) (s : String) :
    Quoted quote (escape quote s.toList) (delimited quote s) where
  eq := String.toList_ofList
  closed := by
    have hne : quote ≠ '\\' := by
      rintro rfl
      exact absurd hquote (by decide)
    refine ⟨s.toList.map (escapeChar quote), ?_, quote_notMem_units quote s.toList⟩
    rw [units_escape, units_plain hne, units]
    rfl

theorem literalText_of_quote {value : Value} {type : String} {quote : Char}
    (h : quoteOf? value type = some quote) :
    quote ∈ quotes ∧ literalText value type = .ok (delimited quote value.content) := by
  have hsingle : '\'' ∈ quotes := by decide
  have hdouble : '"' ∈ quotes := by decide
  cases value with
  | null => cases h
  | bool b => cases h
  | text s =>
      unfold quoteOf? at h
      unfold literalText
      by_cases htype : type = "char"
      · simp only [if_pos htype, Option.some.injEq] at h ⊢
        exact ⟨h ▸ hsingle, by rw [h]⟩
      · simp only [if_neg htype, Option.some.injEq] at h ⊢
        exact ⟨h ▸ hdouble, by rw [← h]; rfl⟩
  | _ =>
      unfold quoteOf? at h
      unfold literalText
      by_cases htype : type = "char"
      · simp only [if_pos htype, Option.some.injEq] at h ⊢
        exact ⟨h ▸ hsingle, by rw [h]⟩
      · simp [htype] at h

/-- Texts between quotes are told apart by the texts and by the sort of quotes. -/
theorem delimited_eq_iff {quote quote' : Char} (hquote : quote ∈ quotes)
    (hquote' : quote' ∈ quotes) {s t : String} :
    delimited quote s = delimited quote' t ↔ s = t ∧ (quote = '\'' ↔ quote' = '\'') := by
  have hsort : ∀ quote ∈ quotes, ∀ quote' ∈ quotes,
      (quote = '\'' ↔ quote' = '\'') → quote = quote' := by
    have hall : (quotes.all fun quote => quotes.all fun quote' =>
        decide ((quote = '\'' ↔ quote' = '\'') → quote = quote')) = true := by decide
    simpa only [List.all_eq_true, decide_eq_true_eq] using hall
  constructor
  · intro h
    have hlist := congrArg String.toList h
    simp only [delimited, String.toList_ofList, List.cons_append, List.cons.injEq] at hlist
    obtain ⟨rfl, hbody⟩ := hlist
    have htext := escape_injective hquote (List.append_cancel_right hbody)
    exact ⟨String.toList_inj.mp htext, Iff.rfl⟩
  · rintro ⟨rfl, h⟩
    rw [hsort quote hquote quote' hquote' h]

theorem sameNode_literal {value value' : Value} {type type' text text' : String}
    (h : literalText value type = .ok text) (h' : literalText value' type' = .ok text') :
    sameNode (.expr (.literal value type)) (.expr (.literal value' type')) =
      .ok (decide (text = text')) := by
  have hsame : ("c" ++ toString text.length ++ ":" ++ text ==
      "c" ++ toString text'.length ++ ":" ++ text') = decide (text = text') := by
    rw [Bool.eq_iff_iff, beq_iff_eq, decide_eq_true_iff]
    constructor
    · intro heq
      have hlist := congrArg String.toList heq
      simp only [String.toList_append] at hlist
      have hdetails : ((toString text.length).toList ++ ':' :: text.toList) ++ [] =
          ((toString text'.length).toList ++ ':' :: text'.toList) ++ [] := by
        simpa using hlist
      exact (constant_inj hdetails).1
    · rintro rfl
      rfl
  simp only [sameNode, encode, h, h', Expr.kindName]
  exact congrArg Except.ok hsame

/-- Between both sorts of quotes all texts are escaped reversibly, a constant in quotes ends at the
first bare quote, and two of texts are equal just if their texts are and both or none of them is a
character. -/
theorem escaped_reversibly {quote : Char} (hquote : quote ∈ quotes) :
    (∀ cs, Enclosed quote cs (escape quote cs)) ∧ Function.Injective (escape quote) ∧
      (∀ value type, quoteOf? value type = some quote → ∃ text,
        literalText value type = .ok text ∧
          Quoted quote (escape quote value.content.toList) text) ∧
      ∀ s t type type', sameNode (.expr (.literal (.text s) type))
        (.expr (.literal (.text t) type')) =
          .ok (decide (s = t ∧ (type = "char" ↔ type' = "char"))) := by
  refine ⟨enclosed_escape hquote, escape_injective hquote, ?_, ?_⟩
  · intro value type h
    obtain ⟨-, htext⟩ := literalText_of_quote h
    exact ⟨_, htext, quoted_delimited hquote value.content⟩
  · intro s t type type'
    have hquoted (s type : String) : ∃ quote, quoteOf? (.text s) type = some quote ∧
        (quote = '\'' ↔ type = "char") := by
      by_cases htype : type = "char"
      · exact ⟨'\'', by simp [quoteOf?, htype], by simp [htype]⟩
      · exact ⟨'"', by simp [quoteOf?, htype], by simp [htype]⟩
    obtain ⟨q, hs, hchar⟩ := hquoted s type
    obtain ⟨q', ht, hchar'⟩ := hquoted t type'
    obtain ⟨hq, htext⟩ := literalText_of_quote hs
    obtain ⟨hq', htext'⟩ := literalText_of_quote ht
    rw [sameNode_literal htext htext']
    refine congrArg Except.ok (decide_eq_decide.mpr ?_)
    rw [delimited_eq_iff hq hq', hchar, hchar']
    exact Iff.rfl

/-- A text with both sorts of quotes, a line break and backslashes before a quote and at the end. -/
theorem escaped_reversibly_windowsPath :
    let s := "it's\n\\\"C:\\"
    let text := "\"it's\\n\\\\\\\"C:\\\\\""
    let node := Node.expr (.literal (.text s) string)
    '"' ∈ quotes ∧ quoteOf? (.text s) string = some '"' ∧
      unescape '"' (escape '"' s.toList) = some s.toList ∧
      literalText (.text s) string = .ok text ∧ Quoted '"' (escape '"' s.toList) text ∧
      sameNode node node = .ok true ∧
      sameNode node (.expr (.literal (.text s) "char")) = .ok false := by
  intro s text node
  have hquote : '"' ∈ quotes := by decide
  have hsort : quoteOf? (.text s) string = some '"' := by decide
  have htext : literalText (.text s) string = .ok text := by decide +kernel
  have hstring : string ≠ "char" := by decide
  obtain ⟨hescaped, -, hliteral, hsame⟩ := escaped_reversibly hquote
  obtain ⟨text', htext', hquoted⟩ := hliteral (.text s) string hsort
  obtain rfl : text = text' := Except.ok.inj (htext.symm.trans htext')
  refine ⟨hquote, hsort, (hescaped s.toList).unescaped, htext, hquoted, ?_, ?_⟩
  · rw [hsame s s string string]
    simp
  · rw [hsame s s string "char"]
    simp [hstring]

end FragmentSynthesis.Proofs.EscapedLiterals
