import FragmentSynthesis.Operators
import FragmentSynthesis.Proofs.TokenReading

/-!
Outlines of fragments: at each node a symbol, which holds what encodings keep of the node itself.
Symbols spell themselves in such a way that they are told from what follows, and they tell how many
parts the node has. So a text is the text of one outline at most.
-/

namespace FragmentSynthesis.Proofs.Outlines

open FragmentSynthesis.Components
open FragmentSynthesis.Faults
open FragmentSynthesis.Operators
open FragmentSynthesis.Proofs.FreshNames
open FragmentSynthesis.Proofs.TokenReading
open FragmentSynthesis.TokenTables

/-- What an encoding keeps of a node besides its parts. -/
inductive Symbol
  | constant (text : Except Fault String)
  | variable (name : String)
  | operator (op : Operator)
  | use (kind : Kind) (token : String) (arity : Nat) (hasReceiver : Bool)
  | openTest
  | assign
  | call
  | branch
  | counting (counter : String)
  | testing
  | foreach (name type : String)
  | foreign

/-- How many parts follow, the block of a statement aside. -/
def Symbol.parts : Symbol → Nat
  | .constant _ | .variable _ | .openTest | .foreign => 0
  | .call | .branch | .counting _ | .testing | .foreach _ _ => 1
  | .assign => 2
  | .operator op => if op.isUnary then 1 else 2
  | .use _ _ arity hasReceiver => hasReceiver.toNat + arity

/-- The symbol is of a statement with a block. -/
def Symbol.hasBlock : Symbol → Bool
  | .branch | .counting _ | .testing | .foreach _ _ => true
  | _ => false

/-- The symbol is of a statement. -/
def Symbol.isStatement : Symbol → Bool
  | .assign | .call => true
  | s => s.hasBlock

/-- The letter of a component in use. Operations on arrays have letters of their own. -/
def useLetter : Kind → Char
  | .arrayGet => 'g'
  | .arraySet => 's'
  | .arrayLength => 'l'
  | _ => 'f'

/-- The letter in front of the encoding of a node. -/
def Symbol.letter : Symbol → Char
  | .constant _ => 'c'
  | .variable _ => 'v'
  | .operator _ => 'o'
  | .use kind _ _ _ => useLetter kind
  | .openTest => '?'
  | .assign => 'a'
  | .call => 'x'
  | .branch => 'i'
  | .counting _ => 'r'
  | .testing => 'w'
  | .foreach _ _ => 'e'
  | .foreign => '_'

/-- What follows the letter. -/
def Symbol.details : Symbol → List Char
  | .constant (.ok text) => (toString text.length).toList ++ ':' :: text.toList
  | .variable name => name.toList ++ [';']
  | .operator op => op.code.toList
  | .use kind token _ _ => if kind.isArray then [] else token.toList ++ [':']
  | .counting counter => counter.toList ++ [';']
  | .foreach name type => name.toList ++ ';' :: (type.toList ++ [';'])
  | _ => []

/-- The encoding of a node without its parts. -/
def Symbol.spell (s : Symbol) : List Char :=
  s.letter :: s.details

/-- Methods and fields have a receiver unless they are static. -/
def takesReceiver (c : Component) : Bool :=
  match c.kind with
  | .method | .field => !c.isStatic
  | _ => false

/-- How many arguments an operation on arrays takes. -/
def arrayArity? : Kind → Option Nat
  | .arrayGet => some 2
  | .arraySet => some 3
  | .arrayLength => some 1
  | _ => none

/-- No name contains the character that ends it. -/
def Plain (name : String) : Prop :=
  ';' ∉ name.toList

instance (name : String) : Decidable (Plain name) :=
  inferInstanceAs (Decidable (';' ∉ name.toList))

/-- A symbol that can be read back: constants have a text, names end where they should, and what is
said of a component holds of one with a token of the table. -/
def Symbol.Legible (table : TokenTable) : Symbol → Prop
  | .constant text => ∃ shown, text = .ok shown
  | .variable name => Plain name
  | .counting counter => Plain counter
  | .foreach name type => Plain name ∧ Plain type
  | .use kind token arity hasReceiver => ∃ c, Listed table c ∧ c.kind = kind ∧ c.token = token ∧
      c.argTypes.length = arity ∧ takesReceiver c = hasReceiver ∧
      ∀ n, arrayArity? kind = some n → arity = n
  | .foreign => False
  | _ => True

theorem ended_inj {name other : String} {us vs : List Char} (hname : Plain name)
    (hother : Plain other) (h : (name.toList ++ [';']) ++ us = (other.toList ++ [';']) ++ vs) :
    name = other ∧ us = vs := by
  rw [List.append_assoc, List.append_assoc] at h
  obtain ⟨hlist, hus⟩ := separated_inj hname hother h
  exact ⟨String.toList_inj.mp hlist, hus⟩

theorem constant_inj {text other : String} {us vs : List Char}
    (h : ((toString text.length).toList ++ ':' :: text.toList) ++ us =
      ((toString other.length).toList ++ ':' :: other.toList) ++ vs) : text = other ∧ us = vs := by
  rw [List.append_assoc, List.append_assoc] at h
  obtain ⟨hcount, hrest⟩ := separated_inj (notMem_toString rfl _) (notMem_toString rfl _) h
  have hlength : text.length = other.length := repr_injective (String.toList_inj.mp hcount)
  obtain ⟨htext, hus⟩ := List.append_inj hrest (by rwa [String.length_toList, String.length_toList])
  exact ⟨String.toList_inj.mp htext, hus⟩

theorem code_injective : ∀ op ∈ Operator.all, ∀ other ∈ Operator.all,
    op.code.toList = other.code.toList → op = other := by
  decide

theorem length_code : ∀ op ∈ Operator.all, op.code.toList.length = 1 := by
  decide

theorem code_inj {op other : Operator} {us vs : List Char}
    (h : op.code.toList ++ us = other.code.toList ++ vs) : op = other ∧ us = vs := by
  have hlength : op.code.toList.length = other.code.toList.length := by
    rw [length_code op op.mem_all, length_code other other.mem_all]
  obtain ⟨hcode, hus⟩ := List.append_inj h hlength
  exact ⟨code_injective op op.mem_all other other.mem_all hcode, hus⟩

theorem key_eq_of_array {table : TokenTable} {c : Component} (hc : Listed table c)
    (hkind : c.kind.isArray = true) :
    c.key = structuralKey c.kind none none c.argTypes.length true := by
  obtain ⟨htype, hname, hstatic⟩ := hc.plain hkind
  rw [Component.key, htype, hname, hstatic]

theorem kind_of_letter {kind other : Kind} (hkind : kind.isArray = true)
    (h : useLetter kind = useLetter other) : kind = other := by
  cases kind <;> cases other <;> first | rfl | exact absurd h (by decide) | cases hkind

theorem exists_arrayArity {kind : Kind} (hkind : kind.isArray = true) :
    ∃ n, arrayArity? kind = some n := by
  cases kind <;> first | exact ⟨_, rfl⟩ | cases hkind

/-- The spelling of a component tells its key: the letter of an array operation does, and otherwise
the token. -/
theorem key_of_spelling {table : TokenTable} {c d : Component} (hc : Listed table c)
    (hd : Listed table d)
    (harity : ∀ n, arrayArity? c.kind = some n → c.argTypes.length = n)
    (harity' : ∀ n, arrayArity? d.kind = some n → d.argTypes.length = n)
    {receiver receiver' : Bool} {us vs : List Char}
    (hletter : useLetter c.kind = useLetter d.kind)
    (h : (Symbol.use c.kind c.token c.argTypes.length receiver).details ++ us =
      (Symbol.use d.kind d.token d.argTypes.length receiver').details ++ vs) :
    c.key = d.key ∧ us = vs := by
  simp only [Symbol.details] at h
  cases hkind : c.kind.isArray with
  | true =>
      have heq : c.kind = d.kind := kind_of_letter hkind hletter
      obtain ⟨n, hn⟩ := exists_arrayArity hkind
      have hkind' : d.kind.isArray = true := heq ▸ hkind
      rw [if_pos hkind, if_pos hkind'] at h
      rw [key_eq_of_array hc hkind, key_eq_of_array hd hkind', heq, harity n hn,
        harity' n (heq ▸ hn)]
      exact ⟨rfl, h⟩
  | false =>
      have hkind' : d.kind.isArray = false := by
        cases hd' : d.kind.isArray with
        | false => rfl
        | true => exact hd'.symm.trans (kind_of_letter hd' hletter.symm ▸ hkind)
      simp only [hkind, hkind', Bool.false_eq_true, if_false, List.append_assoc,
        List.singleton_append] at h
      have hcolon (e : Component) (he : Listed table e) : ':' ∉ e.token.toList := by
        rw [he.token_eq]
        exact colon_notMem_token table e.key
      obtain ⟨htoken, hus⟩ := separated_inj (hcolon c hc) (hcolon d hd) h
      exact ⟨hc.key_eq hd (String.toList_inj.mp htoken), hus⟩

theorem use_eq_of_key {table : TokenTable} {c d : Component} (hc : Listed table c)
    (hd : Listed table d) (h : c.key = d.key) :
    Symbol.use c.kind c.token c.argTypes.length (takesReceiver c) =
      Symbol.use d.kind d.token d.argTypes.length (takesReceiver d) := by
  obtain ⟨hkind, harity, hstatic⟩ := structuralKey_inj h
  have htoken : c.token = d.token := by rw [hc.token_eq, hd.token_eq, h]
  have hreceiver : takesReceiver c = takesReceiver d := by
    unfold takesReceiver
    rw [hkind, hstatic]
  rw [hkind, htoken, harity, hreceiver]

/-- A symbol is told from whatever follows it. -/
theorem spell_inj {table : TokenTable} {s s' : Symbol} (hs : s.Legible table)
    (hs' : s'.Legible table) {us vs : List Char} (h : s.spell ++ us = s'.spell ++ vs) :
    s = s' ∧ us = vs := by
  obtain ⟨hletter, hdetails⟩ := List.cons.inj h
  cases s with
  | constant text =>
      cases s' with
      | constant text' =>
          obtain ⟨shown, rfl⟩ := hs
          obtain ⟨shown', rfl⟩ := hs'
          obtain ⟨rfl, hus⟩ := constant_inj hdetails
          exact ⟨rfl, hus⟩
      | use kind => cases kind <;> simp [Symbol.letter, useLetter] at hletter
      | _ => simp [Symbol.letter] at hletter
  | «variable» name =>
      cases s' with
      | «variable» name' =>
          obtain ⟨rfl, hus⟩ := ended_inj hs hs' hdetails
          exact ⟨rfl, hus⟩
      | use kind => cases kind <;> simp [Symbol.letter, useLetter] at hletter
      | _ => simp [Symbol.letter] at hletter
  | operator op =>
      cases s' with
      | operator op' =>
          obtain ⟨rfl, hus⟩ := code_inj hdetails
          exact ⟨rfl, hus⟩
      | use kind => cases kind <;> simp [Symbol.letter, useLetter] at hletter
      | _ => simp [Symbol.letter] at hletter
  | use kind token arity receiver =>
      cases s' with
      | use kind' token' arity' receiver' =>
          obtain ⟨c, hc, rfl, rfl, rfl, rfl, harity⟩ := hs
          obtain ⟨d, hd, rfl, rfl, rfl, rfl, harity'⟩ := hs'
          obtain ⟨hkey, hus⟩ := key_of_spelling hc hd harity harity' hletter hdetails
          exact ⟨use_eq_of_key hc hd hkey, hus⟩
      | _ => cases kind <;> simp [Symbol.letter, useLetter] at hletter
  | counting counter =>
      cases s' with
      | counting counter' =>
          obtain ⟨rfl, hus⟩ := ended_inj hs hs' hdetails
          exact ⟨rfl, hus⟩
      | use kind => cases kind <;> simp [Symbol.letter, useLetter] at hletter
      | _ => simp [Symbol.letter] at hletter
  | foreach name type =>
      cases s' with
      | foreach name' type' =>
          have hdetails' : name.toList ++ ';' :: ((type.toList ++ [';']) ++ us) =
              name'.toList ++ ';' :: ((type'.toList ++ [';']) ++ vs) := by
            simpa [Symbol.details] using hdetails
          obtain ⟨hname, hrest⟩ := separated_inj hs.1 hs'.1 hdetails'
          obtain ⟨rfl, hus⟩ := ended_inj hs.2 hs'.2 hrest
          exact ⟨by rw [String.toList_inj.mp hname], hus⟩
      | use kind => cases kind <;> simp [Symbol.letter, useLetter] at hletter
      | _ => simp [Symbol.letter] at hletter
  | foreign => exact hs.elim
  | _ =>
      cases s' with
      | use kind => cases kind <;> simp [Symbol.letter, useLetter] at hletter
      | _ => first | exact ⟨rfl, hdetails⟩ | simp [Symbol.letter] at hletter

/-- A symbol with the parts of its node and the statements of its block. -/
inductive Outline
  | node (symbol : Symbol) (parts block : List Outline)

/-- The symbol at the root of an outline. -/
def Outline.symbol : Outline → Symbol
  | .node symbol _ _ => symbol

mutual

/-- The text of an outline: its symbol, its parts and its block in braces. -/
def spellOutline : Outline → List Char
  | .node symbol parts block =>
      symbol.spell ++ (spellOutlines parts
        ++ if symbol.hasBlock then '{' :: (spellOutlines block ++ ['}']) else [])

def spellOutlines : List Outline → List Char
  | [] => []
  | x :: rest => spellOutline x ++ spellOutlines rest

end

mutual

/-- Each node has a legible symbol, as many parts as its symbol says, and a block of statements
just if the symbol has one. -/
def WellFormed (table : TokenTable) : Outline → Prop
  | .node symbol parts block =>
      symbol.Legible table ∧ parts.length = symbol.parts ∧ AllWellFormed table parts ∧
        (symbol.hasBlock = false → block = []) ∧ (∀ x ∈ block, x.symbol.isStatement = true) ∧
        AllWellFormed table block

def AllWellFormed (table : TokenTable) : List Outline → Prop
  | [] => True
  | x :: rest => WellFormed table x ∧ AllWellFormed table rest

end

variable {table : TokenTable}

theorem wellFormed_of_parts {symbol : Symbol} {parts : List Outline}
    (hsymbol : symbol.Legible table) (hlength : parts.length = symbol.parts)
    (hparts : AllWellFormed table parts) : WellFormed table (.node symbol parts []) :=
  ⟨hsymbol, hlength, hparts, fun _ => rfl, List.forall_mem_nil _, trivial⟩

theorem spellOutline_of_parts {symbol : Symbol} (h : symbol.hasBlock = false)
    (parts : List Outline) :
    spellOutline (.node symbol parts []) = symbol.spell ++ spellOutlines parts := by
  rw [spellOutline, h]
  simp only [Bool.false_eq_true, if_false, List.append_nil]

theorem wellFormed_of_block {symbol : Symbol} {part : Outline} {block : List Outline}
    (hsymbol : symbol.Legible table) (hlength : 1 = symbol.parts) (hpart : WellFormed table part)
    (h : symbol.hasBlock = true) (hstatements : ∀ x ∈ block, x.symbol.isStatement = true)
    (hblock : AllWellFormed table block) : WellFormed table (.node symbol [part] block) :=
  ⟨hsymbol, hlength, ⟨hpart, trivial⟩, fun hnone => (Bool.false_ne_true (hnone.symm.trans h)).elim,
    hstatements, hblock⟩

theorem spellOutline_of_block {symbol : Symbol} (h : symbol.hasBlock = true) (part : Outline)
    (block : List Outline) :
    spellOutline (.node symbol [part] block) =
      symbol.spell ++ (spellOutline part ++ '{' :: (spellOutlines block ++ ['}'])) := by
  rw [spellOutline, h]
  simp only [spellOutlines, List.append_nil, if_true]

theorem letter_ne_brace {s : Symbol} (hs : s.isStatement = true) : s.letter ≠ '}' := by
  cases s <;> simp [Symbol.isStatement, Symbol.hasBlock, Symbol.letter] at hs ⊢

theorem spellOutline_eq_cons (x : Outline) :
    ∃ rest, spellOutline x = x.symbol.letter :: rest := by
  obtain ⟨symbol, parts, block⟩ := x
  exact ⟨_, rfl⟩

mutual

theorem spellOutline_inj (x y : Outline) (hx : WellFormed table x) (hy : WellFormed table y)
    {us vs : List Char} (h : spellOutline x ++ us = spellOutline y ++ vs) : x = y ∧ us = vs := by
  obtain ⟨symbol, parts, block⟩ := x
  obtain ⟨symbol', parts', block'⟩ := y
  obtain ⟨hsymbol, hparts, hall, hempty, hstatements, hblock⟩ := hx
  obtain ⟨hsymbol', hparts', hall', hempty', hstatements', hblock'⟩ := hy
  simp only [spellOutline, List.append_assoc] at h
  obtain ⟨rfl, hrest⟩ := spell_inj hsymbol hsymbol' h
  obtain ⟨rfl, hend⟩ :=
    spellOutlines_inj parts parts' hall hall' (hparts.trans hparts'.symm) hrest
  cases hhas : symbol.hasBlock with
  | false =>
      rw [hhas] at hend
      rw [hempty hhas, hempty' hhas]
      exact ⟨rfl, hend⟩
  | true =>
      simp only [hhas, if_true, List.cons_append, List.append_assoc, List.cons.injEq,
        true_and] at hend
      obtain ⟨rfl, hus⟩ :=
        spellBlock_inj block block' hblock hblock' hstatements hstatements' hend
      exact ⟨rfl, hus⟩

theorem spellOutlines_inj (xs ys : List Outline) (hx : AllWellFormed table xs)
    (hy : AllWellFormed table ys) (hlength : xs.length = ys.length) {us vs : List Char}
    (h : spellOutlines xs ++ us = spellOutlines ys ++ vs) : xs = ys ∧ us = vs := by
  cases xs with
  | nil =>
      cases ys with
      | nil => exact ⟨rfl, h⟩
      | cons y ys => cases hlength
  | cons x xs =>
      cases ys with
      | nil => cases hlength
      | cons y ys =>
          simp only [spellOutlines, List.append_assoc] at h
          obtain ⟨rfl, hrest⟩ := spellOutline_inj x y hx.1 hy.1 h
          obtain ⟨rfl, hus⟩ := spellOutlines_inj xs ys hx.2 hy.2 (Nat.succ.inj hlength) hrest
          exact ⟨rfl, hus⟩

/-- In a block the length need not be known, as its end is told from a further statement. -/
theorem spellBlock_inj (xs ys : List Outline) (hx : AllWellFormed table xs)
    (hy : AllWellFormed table ys) (hxs : ∀ x ∈ xs, x.symbol.isStatement = true)
    (hys : ∀ y ∈ ys, y.symbol.isStatement = true) {us vs : List Char}
    (h : spellOutlines xs ++ '}' :: us = spellOutlines ys ++ '}' :: vs) :
    xs = ys ∧ us = vs := by
  cases xs with
  | nil =>
      cases ys with
      | nil => exact ⟨rfl, (List.cons.inj h).2⟩
      | cons y ys =>
          obtain ⟨rest, hy⟩ := spellOutline_eq_cons y
          rw [spellOutlines, spellOutlines, hy] at h
          exact (letter_ne_brace (hys y List.mem_cons_self) (List.cons.inj h).1.symm).elim
  | cons x xs =>
      cases ys with
      | nil =>
          obtain ⟨rest, hx⟩ := spellOutline_eq_cons x
          rw [spellOutlines, spellOutlines, hx] at h
          exact (letter_ne_brace (hxs x List.mem_cons_self) (List.cons.inj h).1).elim
      | cons y ys =>
          simp only [spellOutlines, List.append_assoc] at h
          obtain ⟨rfl, hrest⟩ := spellOutline_inj x y hx.1 hy.1 h
          obtain ⟨rfl, hus⟩ := spellBlock_inj xs ys hx.2 hy.2
            (fun z hz => hxs z (List.mem_cons_of_mem x hz))
            (fun z hz => hys z (List.mem_cons_of_mem x hz)) hrest
          exact ⟨rfl, hus⟩

end

end FragmentSynthesis.Proofs.Outlines
