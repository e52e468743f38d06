import FragmentSynthesis.Proofs.SameLines
import FragmentSynthesis.Traversal

namespace FragmentSynthesis.Proofs.HarvestOutlines

open FragmentSynthesis.Expression
open FragmentSynthesis.ExpressionText
open FragmentSynthesis.Faults
open FragmentSynthesis.Programs
open FragmentSynthesis.Proofs.Outlines
open FragmentSynthesis.Proofs.SameLines
open FragmentSynthesis.Proofs.UniqueDecoding
open FragmentSynthesis.Statement
open FragmentSynthesis.StatementText
open FragmentSynthesis.TokenTables
open FragmentSynthesis.Traversal

mutual

/-- An outline and all parts below it. -/
def below : Outline → List Outline
  | .node symbol parts block => .node symbol parts block :: belowEach parts

def belowEach : List Outline → List Outline
  | [] => []
  | x :: rest => below x ++ belowEach rest

end

mutual

/-- The outlines of a statement and of all that are nested in it. -/
def stmtsIn : Outline → List Outline
  | .node symbol parts block => .node symbol parts block :: stmtsInEach block

def stmtsInEach : List Outline → List Outline
  | [] => []
  | x :: rest => stmtsIn x ++ stmtsInEach rest

end

/-- The outlines of what is harvested below a statement by itself: the value of an assignment and
the use of a call. -/
def ownExprs : Symbol → List Outline → List Outline
  | .assign, parts => belowEach (parts.drop 1)
  | .call, parts => belowEach parts
  | _, _ => []

mutual

/-- The outlines of the expressions that are harvested from a statement. -/
def exprsIn : Outline → List Outline
  | .node symbol parts block => ownExprs symbol parts ++ exprsInEach block

def exprsInEach : List Outline → List Outline
  | [] => []
  | x :: rest => exprsIn x ++ exprsInEach rest

end

/-- The encoding that an outline spells. -/
def codeOf (x : Outline) : Except Fault String :=
  .ok (String.ofList (spellOutline x))

theorem codeOf_eq {x : Outline} {code : String} (h : spellOutline x = code.toList) :
    codeOf x = .ok code := by
  rw [codeOf, h, String.ofList_toList]

/-- Some nodes are listed, and their encodings are those of outlines. -/
def Listing {α : Type} (nodes : Except Fault (List α)) (code : α → Except Fault String)
    (outlines : List Outline) : Prop :=
  ∃ below, nodes = .ok below ∧ below.map code = outlines.map codeOf

variable {table : TokenTable}

theorem code_of_outline {e : Expr} (he : Encodable table e) {x : String} (hx : encode e = .ok x) :
    encode e = codeOf (outline e) := by
  rw [codeOf_eq (outline_of_encode e he hx).2, hx]

mutual

theorem preorder_listing (e : Expr) (he : Encodable table e) {x : String} (hx : encode e = .ok x) :
    Listing (preorder e) encode (below (outline e)) := by
  have hhere := code_of_outline he hx
  cases e with
  | literal value type => exact ⟨[_], rfl, congrArg (· :: []) hhere⟩
  | «variable» name type => exact ⟨[_], rfl, congrArg (· :: []) hhere⟩
  | unary op operand =>
      obtain ⟨text, htext, -⟩ := ok_of_bind hx
      obtain ⟨first, hfirst, hcodes⟩ := preorder_listing operand he htext
      refine ⟨.unary op operand :: first, ?_, ?_⟩
      · rw [preorder, hfirst]; rfl
      · rw [List.map_cons, hhere, hcodes]
        simp [outline, below, belowEach]
  | binary op left right =>
      obtain ⟨text, htext, hx⟩ := ok_of_bind hx
      obtain ⟨text', htext', -⟩ := ok_of_bind hx
      obtain ⟨first, hfirst, hcodes⟩ := preorder_listing left he.1 htext
      obtain ⟨second, hsecond, hcodes'⟩ := preorder_listing right he.2 htext'
      refine ⟨.binary op left right :: (first ++ second), ?_, ?_⟩
      · rw [preorder, hfirst, hsecond]; rfl
      · rw [List.map_cons, List.map_append, hhere, hcodes, hcodes']
        simp [outline, below, belowEach]
  | use c receiver args =>
      cases receiver with
      | none =>
          obtain ⟨htakes, hargs⟩ := he
          obtain ⟨-, texts, -, htexts, -⟩ := useEncoding_of_takes htakes rfl hx
          obtain ⟨others, hothers, hcodes⟩ := preorderEach_listing args hargs htexts
          refine ⟨.use c none args :: others, ?_, ?_⟩
          · rw [preorder, hothers]; rfl
          · rw [List.map_cons, hhere, hcodes]
            simp [outline, below]
      | some receiver =>
          obtain ⟨htakes, hreceiver, hargs⟩ := he
          obtain ⟨text, texts, htext, htexts, -⟩ := useEncoding_of_takes htakes rfl hx
          obtain ⟨first, hfirst, hcodes⟩ := preorder_listing receiver hreceiver htext
          obtain ⟨others, hothers, hcodes'⟩ := preorderEach_listing args hargs htexts
          refine ⟨.use c (some receiver) args :: (first ++ others), ?_, ?_⟩
          · rw [preorder, hfirst, hothers]; rfl
          · rw [List.map_cons, List.map_append, hhere, hcodes, hcodes']
            simp [outline, below, belowEach]
  | foreign f => exact he.elim

theorem preorderEach_listing (args : List Expr) (hargs : EachEncodable table args)
    {texts : List String} (htexts : ExpressionText.sequence (encodeEach args) = .ok texts) :
    Listing (preorderEach args) encode (belowEach (outlineEach args)) := by
  cases args with
  | nil => exact ⟨[], rfl, rfl⟩
  | cons e rest =>
      obtain ⟨text, htext, htexts⟩ := ok_of_bind htexts
      obtain ⟨others, hothers, -⟩ := ok_of_bind htexts
      obtain ⟨first, hfirst, hcodes⟩ := preorder_listing e hargs.1 htext
      obtain ⟨later, hlater, hcodes'⟩ := preorderEach_listing rest hargs.2 hothers
      refine ⟨first ++ later, ?_, ?_⟩
      · rw [preorderEach, hfirst, hlater]; rfl
      · rw [List.map_append, hcodes, hcodes', outlineEach, belowEach, List.map_append]

end

/-- A harvest is taken, and its encodings are those of outlines. -/
def HarvestListing (harvest : Except Fault Harvest) (stmts exprs : List Outline) : Prop :=
  ∃ h, harvest = .ok h ∧ h.statements.map encodeStmt = stmts.map codeOf ∧
    h.expressions.map encode = exprs.map codeOf

theorem code_of_outlineStmt {s : Stmt} (hs : StmtEncodable table s) {x : String}
    (hx : encodeStmt s = .ok x) : encodeStmt s = codeOf (outlineStmt s) := by
  rw [codeOf_eq (outlineStmt_of_encode s hs hx).2, hx]

theorem HarvestListing.around {harvest : Except Fault Harvest} {stmts exprs : List Outline}
    (hbody : HarvestListing harvest stmts exprs) {s : Stmt} {x : Outline}
    (hs : encodeStmt s = codeOf x) :
    HarvestListing (do let below ← harvest; return Harvest.append ⟨[s], []⟩ below) (x :: stmts)
      exprs := by
  obtain ⟨h, rfl, hstmts, hexprs⟩ := hbody
  refine ⟨Harvest.append ⟨[s], []⟩ h, rfl, ?_, hexprs⟩
  rw [Harvest.append, List.singleton_append, List.map_cons, hs, hstmts, List.map_cons]

theorem ownExprs_loopSymbol (head : LoopHead) (parts : List Outline) :
    ownExprs (loopSymbol head) parts = [] := by
  cases head <;> rfl

mutual

theorem harvestStmt_listing (s : Stmt) (hs : StmtEncodable table s) {x : String}
    (hx : encodeStmt s = .ok x) :
    HarvestListing (harvestStmt s) (stmtsIn (outlineStmt s)) (exprsIn (outlineStmt s)) := by
  have hhere := code_of_outlineStmt hs hx
  cases s with
  | assign indent target value =>
      obtain ⟨text, htext, hx⟩ := ok_of_bind hx
      obtain ⟨text', htext', -⟩ := ok_of_bind hx
      obtain ⟨first, hfirst, hcodes⟩ := preorder_listing value hs.2 htext'
      refine ⟨⟨[.assign indent target value], first⟩, ?_, congrArg (· :: []) hhere, ?_⟩
      · rw [harvestStmt, hfirst]; rfl
      · rw [hcodes]
        simp [outlineStmt, exprsIn, ownExprs, belowEach, exprsInEach]
  | call indent function =>
      obtain ⟨text, htext, -⟩ := ok_of_bind hx
      obtain ⟨first, hfirst, hcodes⟩ := preorder_listing function hs htext
      refine ⟨⟨[.call indent function], first⟩, ?_, congrArg (· :: []) hhere, ?_⟩
      · rw [harvestStmt, hfirst]; rfl
      · rw [hcodes]
        simp [outlineStmt, exprsIn, ownExprs, belowEach, exprsInEach]
  | branch indent test body =>
      obtain ⟨text, htext, hx⟩ := ok_of_bind hx
      obtain ⟨text', htext', -⟩ := ok_of_bind hx
      exact (harvestBlock_listing body hs.2 htext').around hhere
  | loop indent head test body =>
      obtain ⟨text, htext, hx⟩ := ok_of_bind hx
      obtain ⟨text', htext', -⟩ := ok_of_bind hx
      have hbody := (harvestBlock_listing body hs.2.2 htext').around hhere
      rw [outlineStmt, exprsIn, ownExprs_loopSymbol]
      exact hbody
  | foreach indent name type container body =>
      obtain ⟨text, htext, hx⟩ := ok_of_bind hx
      obtain ⟨text', htext', -⟩ := ok_of_bind hx
      exact (harvestBlock_listing body hs.2.2 htext').around hhere
  | foreign f => exact hs.elim

theorem harvestBlock_listing (body : List Stmt) (hbody : BlockEncodable table body) {x : String}
    (hx : encodeBlock body = .ok x) :
    HarvestListing (harvestBlock body) (stmtsInEach (outlineBlock body))
      (exprsInEach (outlineBlock body)) := by
  cases body with
  | nil => exact ⟨⟨[], []⟩, rfl, rfl, rfl⟩
  | cons s rest =>
      obtain ⟨text, htext, hx⟩ := ok_of_bind hx
      obtain ⟨text', htext', -⟩ := ok_of_bind hx
      obtain ⟨first, hfirst, hstmts, hexprs⟩ := harvestStmt_listing s hbody.1 htext
      obtain ⟨others, hothers, hstmts', hexprs'⟩ := harvestBlock_listing rest hbody.2 htext'
      refine ⟨first.append others, ?_, ?_, ?_⟩
      · rw [harvestBlock, hfirst, hothers]; rfl
      · rw [Harvest.append, List.map_append, hstmts, hstmts', outlineBlock, stmtsInEach,
          List.map_append]
      · rw [Harvest.append, List.map_append, hexprs, hexprs', outlineBlock, exprsInEach,
          List.map_append]

end

variable {p q : Program}

theorem fragments_listing (hp : Readable table p) {code : String} (h : encodeProgram p = .ok code) :
    HarvestListing (fragments p) (stmtsInEach (outlineBlock p.statements))
      (exprsInEach (outlineBlock p.statements)
        ++ ((p.result.map outline).map below).getD []) := by
  obtain ⟨block, text, hblock, htext, -⟩ := toList_encodeProgram h
  obtain ⟨harvest, hharvest, hstmts, hexprs⟩ := harvestBlock_listing p.statements hp.statements hblock
  cases hresult : p.result with
  | none =>
      refine ⟨harvest, ?_, hstmts, ?_⟩
      · rw [fragments, hharvest, hresult]; rfl
      · simpa using hexprs
  | some e =>
      rw [hresult] at htext
      obtain ⟨x, hx, -⟩ := ok_of_bind htext
      obtain ⟨later, hlater, hcodes⟩ := preorder_listing e (hp.result e hresult) hx
      refine ⟨harvest.append ⟨[], later⟩, ?_, ?_, ?_⟩
      · rw [fragments, hharvest, hresult]
        exact congrArg (Except.map fun below => harvest.append ⟨[], below⟩) hlater
      · rw [Harvest.append, List.append_nil]
        exact hstmts
      · rw [Harvest.append, List.map_append, hexprs, hcodes, List.map_append]
        rfl

/-- Programs with one encoding have harvests with the same encodings. -/
theorem codes_of_encodeProgram (hp : Readable table p) (hq : Readable table q) {code : String}
    (hcode : encodeProgram p = .ok code) (hcode' : encodeProgram q = .ok code) {h h' : Harvest}
    (hh : fragments p = .ok h) (hh' : fragments q = .ok h') :
    h.statements.map encodeStmt = h'.statements.map encodeStmt ∧
      h.expressions.map encode = h'.expressions.map encode := by
  obtain ⟨-, hstatements, hresult⟩ := bodies_of_encodeProgram hp hq hcode hcode'
  obtain ⟨first, hfirst, hstmts, hexprs⟩ := fragments_listing hp hcode
  obtain ⟨second, hsecond, hstmts', hexprs'⟩ := fragments_listing hq hcode'
  obtain rfl := Except.ok.inj (hh.symm.trans hfirst)
  obtain rfl := Except.ok.inj (hh'.symm.trans hsecond)
  constructor
  · rw [hstmts, hstmts', hstatements]
  · rw [hexprs, hexprs', hstatements, hresult]

end FragmentSynthesis.Proofs.HarvestOutlines
