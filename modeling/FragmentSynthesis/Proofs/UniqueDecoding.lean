import FragmentSynthesis.Proofs.Outlines
import FragmentSynthesis.StatementText

namespace FragmentSynthesis.Proofs.UniqueDecoding

open FragmentSynthesis.Components
open FragmentSynthesis.Expression
open FragmentSynthesis.ExpressionText
open FragmentSynthesis.Faults
open FragmentSynthesis.Operators
open FragmentSynthesis.Proofs.Outlines
open FragmentSynthesis.Proofs.TokenReading
open FragmentSynthesis.Statement
open FragmentSynthesis.StatementText
open FragmentSynthesis.TokenTables

mutual

/-- An outline keeps the text of a constant, the name of a variable, operators, the kind and the
token of a component, and whether it has a receiver. -/
def outline : Expr → Outline
  | .literal value type => .node (.constant (literalText value type)) [] []
  | .variable name _ => .node (.variable name) [] []
  | .unary op operand => .node (.operator (.unary op)) [outline operand] []
  | .binary op left right => .node (.operator (.binary op)) [outline left, outline right] []
  | .use c none args => .node (.use c.kind c.token args.length false) (outlineEach args) []
  | .use c (some receiver) args =>
      .node (.use c.kind c.token args.length true) (outline receiver :: outlineEach args) []
  | .foreign _ => .node .foreign [] []

def outlineEach : List Expr → List Outline
  | [] => []
  | e :: rest => outline e :: outlineEach rest

end

/-- All open tests look alike. -/
def outlineTest : Test → Outline
  | .concrete e => outline e
  | .angelic _ => .node .openTest [] []
  | .blank => .node .foreign [] []
  | .unknown => .node .foreign [] []

/-- Of the head of a loop an outline keeps the counter that is counted. -/
def loopSymbol : LoopHead → Symbol
  | .counting counter _ => .counting counter
  | .testing _ => .testing

mutual

/-- Of a statement an outline keeps its form, its parts and its block, and for a loop the counter,
or the name and the type of the element. -/
def outlineStmt : Stmt → Outline
  | .assign _ target value => .node .assign [outline target, outline value] []
  | .call _ function => .node .call [outline function] []
  | .branch _ test body => .node .branch [outlineTest test] (outlineBlock body)
  | .loop _ head test body => .node (loopSymbol head) [outlineTest test] (outlineBlock body)
  | .foreach _ name type container body =>
      .node (.foreach name type) [outline container] (outlineBlock body)
  | .foreign _ => .node .foreign [] []

def outlineBlock : List Stmt → List Outline
  | [] => []
  | s :: rest => outlineStmt s :: outlineBlock rest

end

theorem length_outlineEach (args : List Expr) : (outlineEach args).length = args.length := by
  induction args with
  | nil => rfl
  | cons e rest ih => rw [outlineEach, List.length_cons, List.length_cons, ih]

theorem length_outlineBlock (body : List Stmt) : (outlineBlock body).length = body.length := by
  induction body with
  | nil => rfl
  | cons s rest ih => rw [outlineBlock, List.length_cons, List.length_cons, ih]

/-- A component has its token from a table and as many arguments as it takes, and a receiver just
if it is a method or field that is not static. -/
structure Takes (table : TokenTable) (c : Component) (hasReceiver : Bool) (arity : Nat) :
    Prop where
  listed : Listed table c
  receiver : takesReceiver c = hasReceiver
  arity_eq : c.argTypes.length = arity
  arrayArity : ∀ n, arrayArity? c.kind = some n → arity = n

mutual

/-- Nothing in an expression is foreign, its names can be told from what follows them, and its
components have their tokens from one table. -/
def Encodable (table : TokenTable) : Expr → Prop
  | .literal _ _ => True
  | .variable name _ => Plain name
  | .unary _ operand => Encodable table operand
  | .binary _ left right => Encodable table left ∧ Encodable table right
  | .use c none args => Takes table c false args.length ∧ EachEncodable table args
  | .use c (some receiver) args =>
      Takes table c true args.length ∧ Encodable table receiver ∧ EachEncodable table args
  | .foreign _ => False

def EachEncodable (table : TokenTable) : List Expr → Prop
  | [] => True
  | e :: rest => Encodable table e ∧ EachEncodable table rest

end

/-- The test is open, or its expression can be encoded. -/
def TestEncodable (table : TokenTable) : Test → Prop
  | .concrete e => Encodable table e
  | .angelic _ => True
  | .blank => False
  | .unknown => False

/-- The name of a counter can be told from what follows it. -/
def HeadEncodable : LoopHead → Prop
  | .counting counter _ => Plain counter
  | .testing _ => True

mutual

/-- Nothing in a statement is foreign, and its names can be told from what follows them. -/
def StmtEncodable (table : TokenTable) : Stmt → Prop
  | .assign _ target value => Encodable table target ∧ Encodable table value
  | .call _ function => Encodable table function
  | .branch _ test body => TestEncodable table test ∧ BlockEncodable table body
  | .loop _ head test body =>
      HeadEncodable head ∧ TestEncodable table test ∧ BlockEncodable table body
  | .foreach _ name type container body =>
      (Plain name ∧ Plain type) ∧ Encodable table container ∧ BlockEncodable table body
  | .foreign _ => False

def BlockEncodable (table : TokenTable) : List Stmt → Prop
  | [] => True
  | s :: rest => StmtEncodable table s ∧ BlockEncodable table rest

end

theorem ok_of_bind {α β : Type} {x : Except Fault α} {f : α → Except Fault β} {b : β}
    (h : x >>= f = .ok b) : ∃ a, x = .ok a ∧ f a = .ok b := by
  cases x with
  | error fault => cases h
  | ok a => exact ⟨a, rfl, h⟩

theorem legible_of_takes {table : TokenTable} {c : Component} {hasReceiver : Bool} {arity : Nat}
    (h : Takes table c hasReceiver arity) :
    (Symbol.use c.kind c.token arity hasReceiver).Legible table :=
  ⟨c, h.listed, rfl, rfl, h.arity_eq, h.receiver, h.arrayArity⟩

/-- The encoding of a use, where an operation on arrays has no receiver and all its arguments. -/
theorem useEncoding_eq (c : Component) {receiver : Option (Except Fault String)}
    {texts : List (Except Fault String)} (hreceiver : c.kind.isArray = true → receiver = none)
    (harity : ∀ n, arrayArity? c.kind = some n → texts.length = n) (arity : Nat)
    (hasReceiver : Bool) :
    useEncoding c receiver texts = (do
      let receiver ← receiver.getD (.ok "")
      let texts ← ExpressionText.sequence texts
      return String.ofList (Symbol.use c.kind c.token arity hasReceiver).spell ++ receiver
        ++ concat texts) := by
  unfold useEncoding Symbol.spell Symbol.letter Symbol.details
  cases hkind : c.kind with
  | method | constructor | field =>
      have hhead : String.ofList ('f' :: (c.token.toList ++ [':'])) = "f" ++ c.token ++ ":" := by
        simp [← String.toList_inj]
      simp only [useLetter, Kind.isArray, Bool.false_eq_true, if_false, hhead]
  | arrayGet =>
      rw [hreceiver (by rw [hkind]; rfl)]
      obtain ⟨array, index, rfl⟩ := List.length_eq_two.mp (harity 2 (by rw [hkind]; rfl))
      cases array with
      | error fault => rfl
      | ok array =>
          cases index with
          | error fault => rfl
          | ok index =>
              refine congrArg Except.ok ?_
              simp [← String.toList_inj, concat, useLetter, Kind.isArray]
  | arraySet =>
      rw [hreceiver (by rw [hkind]; rfl)]
      obtain ⟨array, index, value, rfl⟩ := List.length_eq_three.mp (harity 3 (by rw [hkind]; rfl))
      cases array with
      | error fault => rfl
      | ok array =>
          cases index with
          | error fault => rfl
          | ok index =>
              cases value with
              | error fault => rfl
              | ok value =>
                  refine congrArg Except.ok ?_
                  simp [← String.toList_inj, concat, useLetter, Kind.isArray]
  | arrayLength =>
      rw [hreceiver (by rw [hkind]; rfl)]
      obtain ⟨array, rfl⟩ := List.length_eq_one_iff.mp (harity 1 (by rw [hkind]; rfl))
      cases array with
      | error fault => rfl
      | ok array =>
          refine congrArg Except.ok ?_
          simp [concat, useLetter, Kind.isArray]

theorem length_encodeEach (args : List Expr) : (encodeEach args).length = args.length := by
  induction args with
  | nil => rfl
  | cons e rest ih => rw [encodeEach, List.length_cons, List.length_cons, ih]

theorem isArray_of_takesReceiver {c : Component} (h : takesReceiver c = true) :
    c.kind.isArray = false := by
  unfold takesReceiver at h
  cases hkind : c.kind <;> simp_all [Kind.isArray]

theorem useEncoding_of_takes {table : TokenTable} {c : Component} {hasReceiver : Bool}
    {args : List Expr} (h : Takes table c hasReceiver args.length)
    {receiver : Option (Except Fault String)} (hreceiver : receiver.isSome = hasReceiver)
    {x : String} (hx : useEncoding c receiver (encodeEach args) = .ok x) :
    ∃ text texts, receiver.getD (.ok "") = .ok text ∧
      ExpressionText.sequence (encodeEach args) = .ok texts ∧
      x.toList = (Symbol.use c.kind c.token args.length hasReceiver).spell ++ (text.toList
        ++ (concat texts).toList) := by
  have hnone : c.kind.isArray = true → receiver = none := by
    intro hkind
    cases receiver with
    | none => rfl
    | some text =>
        rw [isArray_of_takesReceiver (h.receiver.trans hreceiver.symm)] at hkind
        cases hkind
  rw [useEncoding_eq c hnone
    (fun n hn => (length_encodeEach args).trans (h.arrayArity n hn)) args.length hasReceiver] at hx
  obtain ⟨text, htext, hx⟩ := ok_of_bind hx
  obtain ⟨texts, htexts, hx⟩ := ok_of_bind hx
  cases hx
  exact ⟨text, texts, htext, htexts, by simp⟩

variable {table : TokenTable}

mutual

/-- What can be encoded has a well-formed outline, whose text is the encoding. -/
theorem outline_of_encode (e : Expr) (he : Encodable table e) {x : String}
    (hx : encode e = .ok x) :
    WellFormed table (outline e) ∧ spellOutline (outline e) = x.toList := by
  cases e with
  | literal value type =>
      obtain ⟨text, htext, hx⟩ := ok_of_bind hx
      cases hx
      rw [outline, htext]
      refine ⟨wellFormed_of_parts ⟨text, rfl⟩ rfl trivial, ?_⟩
      rw [spellOutline_of_parts rfl]
      simp [Symbol.spell, Symbol.letter, Symbol.details, spellOutlines]
  | «variable» name type =>
      cases hx
      refine ⟨wellFormed_of_parts he rfl trivial, ?_⟩
      rw [outline, spellOutline_of_parts rfl]
      simp [Symbol.spell, Symbol.letter, Symbol.details, spellOutlines]
  | unary op operand =>
      obtain ⟨text, htext, hx⟩ := ok_of_bind hx
      cases hx
      obtain ⟨hoperand, hspell⟩ := outline_of_encode operand he htext
      refine ⟨wellFormed_of_parts trivial rfl ⟨hoperand, trivial⟩, ?_⟩
      rw [outline, spellOutline_of_parts rfl]
      simp [Symbol.spell, Symbol.letter, Symbol.details, spellOutlines, Operator.code, hspell]
  | binary op left right =>
      obtain ⟨text, htext, hx⟩ := ok_of_bind hx
      obtain ⟨text', htext', hx⟩ := ok_of_bind hx
      cases hx
      obtain ⟨hleft, hspell⟩ := outline_of_encode left he.1 htext
      obtain ⟨hright, hspell'⟩ := outline_of_encode right he.2 htext'
      refine ⟨wellFormed_of_parts trivial rfl ⟨hleft, hright, trivial⟩, ?_⟩
      rw [outline, spellOutline_of_parts rfl]
      simp [Symbol.spell, Symbol.letter, Symbol.details, spellOutlines, Operator.code, hspell,
        hspell']
  | use c receiver args =>
      cases receiver with
      | none =>
          obtain ⟨htakes, hargs⟩ := he
          obtain ⟨text, texts, htext, htexts, hspelling⟩ := useEncoding_of_takes htakes rfl hx
          cases htext
          obtain ⟨hall, hspell⟩ := outlineEach_of_encode args hargs htexts
          refine ⟨wellFormed_of_parts (legible_of_takes htakes) ?_ hall, ?_⟩
          · rw [length_outlineEach]
            exact (Nat.zero_add _).symm
          · rw [outline, spellOutline_of_parts rfl, hspelling, hspell]
            rfl
      | some receiver =>
          obtain ⟨htakes, hreceiver, hargs⟩ := he
          obtain ⟨text, texts, htext, htexts, hspelling⟩ := useEncoding_of_takes htakes rfl hx
          obtain ⟨hfirst, hspell⟩ := outline_of_encode receiver hreceiver htext
          obtain ⟨hall, hspell'⟩ := outlineEach_of_encode args hargs htexts
          refine ⟨wellFormed_of_parts (legible_of_takes htakes) ?_ ⟨hfirst, hall⟩, ?_⟩
          · rw [List.length_cons, length_outlineEach]
            exact Nat.add_comm _ _
          · rw [outline, spellOutline_of_parts rfl, hspelling, spellOutlines, hspell, hspell']
  | foreign f => exact he.elim

theorem outlineEach_of_encode (args : List Expr) (hargs : EachEncodable table args)
    {texts : List String} (htexts : ExpressionText.sequence (encodeEach args) = .ok texts) :
    AllWellFormed table (outlineEach args) ∧
      spellOutlines (outlineEach args) = (concat texts).toList := by
  cases args with
  | nil =>
      cases htexts
      exact ⟨trivial, rfl⟩
  | cons e rest =>
      obtain ⟨text, htext, htexts⟩ := ok_of_bind htexts
      obtain ⟨others, hothers, htexts⟩ := ok_of_bind htexts
      cases htexts
      obtain ⟨hfirst, hspell⟩ := outline_of_encode e hargs.1 htext
      obtain ⟨hrest, hspell'⟩ := outlineEach_of_encode rest hargs.2 hothers
      exact ⟨⟨hfirst, hrest⟩, by simp only [outlineEach, spellOutlines, hspell, hspell', concat,
        String.toList_append]⟩

end

theorem outlineTest_of_encode (test : Test) (htest : TestEncodable table test) {x : String}
    (hx : encodeTest test = .ok x) :
    WellFormed table (outlineTest test) ∧ spellOutline (outlineTest test) = x.toList := by
  cases test with
  | concrete e => exact outline_of_encode e htest hx
  | angelic remembered =>
      cases hx
      exact ⟨wellFormed_of_parts trivial rfl trivial, rfl⟩
  | blank => exact htest.elim
  | unknown => exact htest.elim

theorem legible_loopSymbol {head : LoopHead} (h : HeadEncodable head) :
    (loopSymbol head).Legible table := by
  cases head with
  | counting counter declared => exact h
  | testing counter => exact trivial

theorem spell_loopSymbol (head : LoopHead) :
    (loopSymbol head).spell = (encodeHead head).toList := by
  cases head <;> simp [loopSymbol, encodeHead, Symbol.spell, Symbol.letter, Symbol.details]

theorem isStatement_outlineStmt {s : Stmt} (hs : StmtEncodable table s) :
    (outlineStmt s).symbol.isStatement = true := by
  cases s with
  | loop indent head test body => cases head <;> rfl
  | foreign f => exact hs.elim
  | _ => rfl

theorem isStatement_outlineBlock {body : List Stmt} (hbody : BlockEncodable table body) :
    ∀ x ∈ outlineBlock body, x.symbol.isStatement = true := by
  induction body with
  | nil => exact List.forall_mem_nil _
  | cons s rest ih =>
      exact List.forall_mem_cons.mpr ⟨isStatement_outlineStmt hbody.1, ih hbody.2⟩

mutual

theorem outlineStmt_of_encode (s : Stmt) (hs : StmtEncodable table s) {x : String}
    (hx : encodeStmt s = .ok x) :
    WellFormed table (outlineStmt s) ∧ spellOutline (outlineStmt s) = x.toList := by
  cases s with
  | assign indent target value =>
      obtain ⟨text, htext, hx⟩ := ok_of_bind hx
      obtain ⟨text', htext', hx⟩ := ok_of_bind hx
      cases hx
      obtain ⟨htarget, hspell⟩ := outline_of_encode target hs.1 htext
      obtain ⟨hvalue, hspell'⟩ := outline_of_encode value hs.2 htext'
      refine ⟨wellFormed_of_parts trivial rfl ⟨htarget, hvalue, trivial⟩, ?_⟩
      rw [outlineStmt, spellOutline_of_parts rfl]
      simp [Symbol.spell, Symbol.letter, Symbol.details, spellOutlines, hspell, hspell']
  | call indent function =>
      obtain ⟨text, htext, hx⟩ := ok_of_bind hx
      cases hx
      obtain ⟨hfunction, hspell⟩ := outline_of_encode function hs htext
      refine ⟨wellFormed_of_parts trivial rfl ⟨hfunction, trivial⟩, ?_⟩
      rw [outlineStmt, spellOutline_of_parts rfl]
      simp [Symbol.spell, Symbol.letter, Symbol.details, spellOutlines, hspell]
  | branch indent test body =>
      obtain ⟨text, htext, hx⟩ := ok_of_bind hx
      obtain ⟨text', htext', hx⟩ := ok_of_bind hx
      cases hx
      obtain ⟨htest, hspell⟩ := outlineTest_of_encode test hs.1 htext
      obtain ⟨hbody, hspell'⟩ := outlineBlock_of_encode body hs.2 htext'
      refine ⟨wellFormed_of_block trivial rfl htest rfl (isStatement_outlineBlock hs.2) hbody, ?_⟩
      rw [outlineStmt, spellOutline_of_block rfl, hspell, hspell']
      simp [Symbol.spell, Symbol.letter, Symbol.details]
  | loop indent head test body =>
      obtain ⟨text, htext, hx⟩ := ok_of_bind hx
      obtain ⟨text', htext', hx⟩ := ok_of_bind hx
      cases hx
      obtain ⟨hhead, htest, hbody⟩ := hs
      obtain ⟨htest, hspell⟩ := outlineTest_of_encode test htest htext
      obtain ⟨hblock, hspell'⟩ := outlineBlock_of_encode body hbody htext'
      have hhas : (loopSymbol head).hasBlock = true := by cases head <;> rfl
      have hparts : 1 = (loopSymbol head).parts := by cases head <;> rfl
      refine ⟨wellFormed_of_block (legible_loopSymbol hhead) hparts htest hhas
        (isStatement_outlineBlock hbody) hblock, ?_⟩
      rw [outlineStmt, spellOutline_of_block hhas, spell_loopSymbol, hspell, hspell']
      simp
  | foreach indent name type container body =>
      obtain ⟨text, htext, hx⟩ := ok_of_bind hx
      obtain ⟨text', htext', hx⟩ := ok_of_bind hx
      cases hx
      obtain ⟨hnames, hcontainer, hbody⟩ := hs
      obtain ⟨hpart, hspell⟩ := outline_of_encode container hcontainer htext
      obtain ⟨hblock, hspell'⟩ := outlineBlock_of_encode body hbody htext'
      refine ⟨wellFormed_of_block hnames rfl hpart rfl (isStatement_outlineBlock hbody) hblock, ?_⟩
      rw [outlineStmt, spellOutline_of_block rfl, hspell, hspell']
      simp [Symbol.spell, Symbol.letter, Symbol.details]
  | foreign f => exact hs.elim

theorem outlineBlock_of_encode (body : List Stmt) (hbody : BlockEncodable table body) {x : String}
    (hx : encodeBlock body = .ok x) :
    AllWellFormed table (outlineBlock body) ∧ spellOutlines (outlineBlock body) = x.toList := by
  cases body with
  | nil =>
      cases hx
      exact ⟨trivial, rfl⟩
  | cons s rest =>
      obtain ⟨text, htext, hx⟩ := ok_of_bind hx
      obtain ⟨text', htext', hx⟩ := ok_of_bind hx
      cases hx
      obtain ⟨hfirst, hspell⟩ := outlineStmt_of_encode s hbody.1 htext
      obtain ⟨hrest, hspell'⟩ := outlineBlock_of_encode rest hbody.2 htext'
      refine ⟨⟨hfirst, hrest⟩, ?_⟩
      rw [outlineBlock, spellOutlines, hspell, hspell', String.toList_append]

end

/-- No encoding of one sort of fragments is a proper prefix of another, and fragments with the same
encoding have the same outline. -/
def DecodedUniquely {α : Type} (encodable : α → Prop) (code : α → Except Fault String)
    (view : α → Outline) : Prop :=
  ∀ a b : α, encodable a → encodable b → ∀ x y : String, code a = .ok x → code b = .ok y →
    x.toList <+: y.toList → x = y ∧ view a = view b

theorem decodedUniquely {α : Type} {encodable : α → Prop} {code : α → Except Fault String}
    {view : α → Outline}
    (h : ∀ a : α, encodable a → ∀ {x : String}, code a = .ok x →
      WellFormed table (view a) ∧ spellOutline (view a) = x.toList) :
    DecodedUniquely encodable code view := by
  intro a b ha hb x y hx hy hprefix
  obtain ⟨hwell, hspell⟩ := h a ha hx
  obtain ⟨hwell', hspell'⟩ := h b hb hy
  obtain ⟨rest, hrest⟩ := hprefix
  have htext : spellOutline (view a) ++ rest = spellOutline (view b) ++ [] := by
    rw [hspell, hspell', hrest, List.append_nil]
  obtain ⟨hview, rfl⟩ := spellOutline_inj _ _ hwell hwell' htext
  rw [List.append_nil] at hrest
  exact ⟨String.toList_inj.mp hrest, hview⟩

theorem outlineBlock_eq_of_encode {a b : List Stmt} (ha : BlockEncodable table a)
    (hb : BlockEncodable table b) {x : String} (hx : encodeBlock a = .ok x)
    (hy : encodeBlock b = .ok x) : outlineBlock a = outlineBlock b := by
  obtain ⟨hwell, hspell⟩ := outlineBlock_of_encode a ha hx
  obtain ⟨hwell', hspell'⟩ := outlineBlock_of_encode b hb hy
  -- A brace behind both texts ends them like the blocks of statements.
  have htext : spellOutlines (outlineBlock a) ++ '\x7d' :: [] =
      spellOutlines (outlineBlock b) ++ '\x7d' :: [] := by
    rw [hspell, hspell']
  exact (spellBlock_inj _ _ hwell hwell' (isStatement_outlineBlock ha) (isStatement_outlineBlock hb)
    htext).1

/-- Fragments whose components have their tokens from one table are told from their encodings, as
far as outlines go. -/
theorem encode_uniquely_decoded (table : TokenTable) :
    DecodedUniquely (Encodable table) encode outline ∧
      DecodedUniquely (TestEncodable table) encodeTest outlineTest ∧
      DecodedUniquely (StmtEncodable table) encodeStmt outlineStmt ∧
      ∀ a b : List Stmt, BlockEncodable table a → BlockEncodable table b →
        ∀ x : String, encodeBlock a = .ok x → encodeBlock b = .ok x →
          a.length = b.length ∧ outlineBlock a = outlineBlock b := by
  refine ⟨decodedUniquely outline_of_encode, decodedUniquely outlineTest_of_encode,
    decodedUniquely outlineStmt_of_encode, ?_⟩
  intro a b ha hb x hx hy
  have heq := outlineBlock_eq_of_encode ha hb hx hy
  refine ⟨?_, heq⟩
  rw [← length_outlineBlock a, heq, length_outlineBlock b]

/-- The length of a text, a method without arguments. -/
def lengthRecord : Record where
  kind := .method
  declaringType := some "java.lang.String"
  name := some "length"
  returnType := "int"
  argTypes := []
  isStatic := false
  typeParams := []
  complete := rfl

/-- The component of the method, with the first token of a table. -/
def lengthMethod : Component :=
  ((unregistered lengthRecord none).register TokenTable.empty).1

def lengthTable : TokenTable :=
  ((unregistered lengthRecord none).register TokenTable.empty).2

theorem issued_lengthMethod : Issued lengthTable lengthMethod := by
  have hrecord : ofRecord lengthRecord TokenTable.empty none = .ok (lengthMethod, lengthTable) :=
    rfl
  exact .record hrecord

theorem takes_lengthMethod : Takes lengthTable lengthMethod true 0 := by
  refine ⟨issued_lengthMethod.listed, rfl, rfl, ?_⟩
  intro n hn
  cases hn

/-- Counting up to the length of a text, with an open branch. -/
def countedLetters (depth : Int) (declared : Bool) (type : String) (remembered : Option Expr) :
    List Stmt :=
  [.loop depth (.counting "i" declared)
    (.concrete (.binary .lt (.variable "i" type)
      (.use lengthMethod (some (.variable "s" "java.lang.String")) [])))
    [.branch (depth + 1) (.angelic remembered)
      [.assign (depth + 2) (.variable "x" type) (.variable "i" type)]]]

theorem blockEncodable_countedLetters (depth : Int) (declared : Bool) (type : String)
    (remembered : Option Expr) :
    BlockEncodable lengthTable (countedLetters depth declared type remembered) := by
  have hi : Plain "i" := by decide
  have hs : Plain "s" := by decide
  have hx : Plain "x" := by decide
  have hbranch : StmtEncodable lengthTable (.branch (depth + 1) (.angelic remembered)
      [.assign (depth + 2) (.variable "x" type) (.variable "i" type)]) :=
    ⟨trivial, ⟨hx, hi⟩, trivial⟩
  exact ⟨⟨hi, ⟨hi, takes_lengthMethod, hs, trivial⟩, hbranch, trivial⟩, trivial⟩

theorem encode_uniquely_decoded_countedLetters :
    let a := countedLetters 1 true "int" none
    let b := countedLetters 4 false "long" (some (.variable "z" "boolean"))
    let text := "ri;o<vi;f0:vs;\x7bi?\x7bavx;vi;\x7d\x7d"
    (BlockEncodable lengthTable a ∧ BlockEncodable lengthTable b) ∧
      (encodeBlock a = .ok text ∧ encodeBlock b = .ok text) ∧
      a.length = b.length ∧ outlineBlock a = outlineBlock b := by
  intro a b text
  have ha : BlockEncodable lengthTable a := blockEncodable_countedLetters 1 true "int" none
  have hb : BlockEncodable lengthTable b := blockEncodable_countedLetters 4 false "long" _
  have hx : encodeBlock a = .ok text := by decide +kernel
  have hy : encodeBlock b = .ok text := by decide +kernel
  obtain ⟨-, -, -, hblocks⟩ := encode_uniquely_decoded lengthTable
  exact ⟨⟨ha, hb⟩, ⟨hx, hy⟩, hblocks a b ha hb text hx hy⟩

end FragmentSynthesis.Proofs.UniqueDecoding
