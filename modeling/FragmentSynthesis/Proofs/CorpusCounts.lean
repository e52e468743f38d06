import FragmentSynthesis.Corpora
import FragmentSynthesis.Proofs.Declarations
import FragmentSynthesis.Proofs.Outlines
import FragmentSynthesis.Proofs.UniqueDecoding
import Mathlib.Data.List.Count

namespace FragmentSynthesis.Proofs.CorpusCounts

open FragmentSynthesis.Components
open FragmentSynthesis.Corpora
open FragmentSynthesis.Expression
open FragmentSynthesis.ExpressionText
open FragmentSynthesis.Faults
open FragmentSynthesis.OrderedMaps
open FragmentSynthesis.Programs
open FragmentSynthesis.Proofs.Declarations
open FragmentSynthesis.Proofs.Outlines
open FragmentSynthesis.Proofs.UniqueDecoding
open FragmentSynthesis.Statement
open FragmentSynthesis.StatementText
open FragmentSynthesis.Traversal
open FragmentSynthesis.TypeRefs

/-- A node is itself of a form that the analyses know, whatever its parts are. -/
def IsProper : Node → Prop
  | .expr (.foreign _) => False
  | .stmt (.foreign _) => False
  | .expr _ => True
  | .stmt _ => True
  | .text _ => False
  | .absent => False

/-- The class of the nodes whose encodings start with a letter. -/
def classOf : Char → String
  | 'c' => "Literal"
  | 'v' => "Var"
  | 'o' => "Op"
  | 'a' => "VarAssignment"
  | 'x' => "FuncStatement"
  | 'i' => "IfStatement"
  | 'r' | 'w' => "ForLoop"
  | 'e' => "ForEachLoop"
  | _ => "Func"

/-- A text starts with a letter of some class. -/
def StartsAs (kindName : String) (x : String) : Prop :=
  ∃ letter rest, x.toList = letter :: rest ∧ classOf letter = kindName

theorem StartsAs.append {kindName front : String} (h : StartsAs kindName front) (rest : String) :
    StartsAs kindName (front ++ rest) := by
  obtain ⟨letter, more, hfront, hclass⟩ := h
  exact ⟨letter, more ++ rest.toList, by rw [String.toList_append, hfront, List.cons_append],
    hclass⟩

theorem startsAs_useEncoding {c : Component} {receiver : Option (Except Fault String)}
    {texts : List (Except Fault String)} {x : String} (h : useEncoding c receiver texts = .ok x) :
    StartsAs "Func" x := by
  have hg : StartsAs "Func" "g" := ⟨'g', [], rfl, rfl⟩
  have hs : StartsAs "Func" "s" := ⟨'s', [], rfl, rfl⟩
  have hl : StartsAs "Func" "l" := ⟨'l', [], rfl, rfl⟩
  have hf : StartsAs "Func" "f" := ⟨'f', [], rfl, rfl⟩
  unfold useEncoding at h
  split at h
  · obtain ⟨array, -, h⟩ := ok_of_bind h
    obtain ⟨index, -, h⟩ := ok_of_bind h
    cases h
    exact (hg.append _).append _
  · obtain ⟨array, -, h⟩ := ok_of_bind h
    obtain ⟨index, -, h⟩ := ok_of_bind h
    obtain ⟨value, -, h⟩ := ok_of_bind h
    cases h
    exact ((hs.append _).append _).append _
  · obtain ⟨array, -, h⟩ := ok_of_bind h
    cases h
    exact hl.append _
  · obtain ⟨receiver, -, h⟩ := ok_of_bind h
    obtain ⟨args, -, h⟩ := ok_of_bind h
    cases h
    exact (((hf.append _).append _).append _).append _

theorem startsAs_encode {e : Expr} (he : IsProper (.expr e)) {x : String} (h : encode e = .ok x) :
    StartsAs e.kindName x := by
  cases e with
  | literal value type =>
      have hc : StartsAs "Literal" "c" := ⟨'c', [], rfl, rfl⟩
      obtain ⟨text, -, h⟩ := ok_of_bind h
      cases h
      exact ((hc.append _).append _).append _
  | «variable» name type =>
      have hv : StartsAs "Var" "v" := ⟨'v', [], rfl, rfl⟩
      cases h
      exact (hv.append _).append _
  | unary op operand =>
      have ho : StartsAs "Op" "o" := ⟨'o', [], rfl, rfl⟩
      obtain ⟨text, -, h⟩ := ok_of_bind h
      cases h
      exact (ho.append _).append _
  | binary op left right =>
      have ho : StartsAs "Op" "o" := ⟨'o', [], rfl, rfl⟩
      obtain ⟨text, -, h⟩ := ok_of_bind h
      obtain ⟨text', -, h⟩ := ok_of_bind h
      cases h
      exact ((ho.append _).append _).append _
  | use c receiver args =>
      cases receiver with
      | none => exact startsAs_useEncoding h
      | some receiver => exact startsAs_useEncoding h
  | foreign f => exact he.elim

theorem startsAs_encodeHead (head : LoopHead) : StartsAs "ForLoop" (encodeHead head) := by
  cases head with
  | counting counter declared =>
      have hr : StartsAs "ForLoop" "r" := ⟨'r', [], rfl, rfl⟩
      exact (hr.append _).append _
  | testing counter =>
      have hw : StartsAs "ForLoop" "w" := ⟨'w', [], rfl, rfl⟩
      exact hw

theorem startsAs_encodeStmt {s : Stmt} (hs : IsProper (.stmt s)) {x : String}
    (h : encodeStmt s = .ok x) : StartsAs s.kindName x := by
  cases s with
  | assign indent target value =>
      have ha : StartsAs "VarAssignment" "a" := ⟨'a', [], rfl, rfl⟩
      obtain ⟨text, -, h⟩ := ok_of_bind h
      obtain ⟨text', -, h⟩ := ok_of_bind h
      cases h
      exact (ha.append _).append _
  | call indent function =>
      have hx : StartsAs "FuncStatement" "x" := ⟨'x', [], rfl, rfl⟩
      obtain ⟨text, -, h⟩ := ok_of_bind h
      cases h
      exact hx.append _
  | branch indent test body =>
      have hi : StartsAs "IfStatement" "i" := ⟨'i', [], rfl, rfl⟩
      obtain ⟨text, -, h⟩ := ok_of_bind h
      obtain ⟨text', -, h⟩ := ok_of_bind h
      cases h
      exact (((hi.append _).append _).append _).append _
  | loop indent head test body =>
      obtain ⟨text, -, h⟩ := ok_of_bind h
      obtain ⟨text', -, h⟩ := ok_of_bind h
      cases h
      exact ((((startsAs_encodeHead head).append _).append _).append _).append _
  | foreach indent name type container body =>
      have he : StartsAs "ForEachLoop" "e" := ⟨'e', [], rfl, rfl⟩
      obtain ⟨text, -, h⟩ := ok_of_bind h
      obtain ⟨text', -, h⟩ := ok_of_bind h
      cases h
      exact (((((((he.append _).append _).append _).append _).append _).append _).append _).append _
  | foreign f => exact hs.elim

theorem startsAs_encodeNode {n : Node} (hn : IsProper n) {x : String} (h : encodeNode n = .ok x) :
    StartsAs n.kindName x := by
  cases n with
  | expr e => exact startsAs_encode hn h
  | stmt s => exact startsAs_encodeStmt hn h
  | text s => exact hn.elim
  | absent => exact hn.elim

theorem StartsAs.eq {a b x : String} (ha : StartsAs a x) (hb : StartsAs b x) : a = b := by
  obtain ⟨letter, rest, hx, rfl⟩ := ha
  obtain ⟨letter', rest', hx', rfl⟩ := hb
  rw [(List.cons.inj (hx.symm.trans hx')).1]

theorem kindName_expr_ne_stmt {e : Expr} {s : Stmt} (he : IsProper (.expr e))
    (hs : IsProper (.stmt s)) : e.kindName ≠ s.kindName := by
  cases e <;> cases s <;>
    first | exact he.elim | exact hs.elim | simp [Expr.kindName, Stmt.kindName]

/-- Codes are compared only within a class, but codes of different classes are never the same. -/
theorem sameCode_of_ok {differs : Prop} [Decidable differs] {code code' : Except Fault String}
    {x y : String} (hx : code = .ok x) (hy : code' = .ok y) (h : x = y → ¬ differs) :
    (do if differs then return false
        let x ← code
        let y ← code'
        return x == y : Except Fault Bool) = .ok (decide (x = y)) := by
  by_cases hclass : differs
  · have hne : x ≠ y := fun heq => h heq hclass
    rw [if_pos hclass, decide_eq_false hne]
    rfl
  · rw [if_neg hclass, hx, hy]
    rfl

/-- Nodes of known forms count as equal just if they have one encoding. -/
theorem sameNode_eq {n f : Node} (hn : IsProper n) (hf : IsProper f) {x y : String}
    (hx : encodeNode n = .ok x) (hy : encodeNode f = .ok y) :
    sameNode n f = .ok (decide (x = y)) := by
  have hkind : x = y → n.kindName = f.kindName := by
    rintro rfl
    exact (startsAs_encodeNode hn hx).eq (startsAs_encodeNode hf hy)
  cases n with
  | expr e =>
      cases f with
      | expr e' => exact sameCode_of_ok hx hy fun h => not_not_intro (hkind h)
      | stmt s =>
          have hne : x ≠ y := fun h => kindName_expr_ne_stmt hn hf (hkind h)
          simp only [sameNode, hne, decide_false]
      | text s => exact hf.elim
      | absent => exact hf.elim
  | stmt s =>
      cases f with
      | expr e =>
          have hne : x ≠ y := fun h => kindName_expr_ne_stmt hf hn (hkind h).symm
          simp only [sameNode, hne, decide_false]
      | stmt s' => exact sameCode_of_ok hx hy fun h => not_not_intro (hkind h)
      | text s => exact hf.elim
      | absent => exact hf.elim
  | text s => exact hn.elim
  | absent => exact hn.elim

/-- The nodes of a harvest in the order in which a corpus takes them in. -/
def nodesOf (h : Harvest) : List Node :=
  h.statements.map .stmt ++ h.expressions.map .expr

mutual

theorem proper_preorder {e : Expr} {es : List Expr} (h : preorder e = .ok es) :
    ∀ x ∈ es, IsProper (.expr x) := by
  cases e with
  | literal value type =>
      cases h
      exact List.forall_mem_singleton.mpr trivial
  | «variable» name type =>
      cases h
      exact List.forall_mem_singleton.mpr trivial
  | unary op operand =>
      obtain ⟨first, hfirst, h⟩ := ok_of_bind h
      cases h
      exact List.forall_mem_cons.mpr ⟨trivial, proper_preorder hfirst⟩
  | binary op left right =>
      obtain ⟨first, hfirst, h⟩ := ok_of_bind h
      obtain ⟨second, hsecond, h⟩ := ok_of_bind h
      cases h
      exact List.forall_mem_cons.mpr ⟨trivial,
        List.forall_mem_append.mpr ⟨proper_preorder hfirst, proper_preorder hsecond⟩⟩
  | use c receiver args =>
      cases receiver with
      | none =>
          obtain ⟨others, hothers, h⟩ := ok_of_bind h
          cases h
          exact List.forall_mem_cons.mpr ⟨trivial, proper_preorderEach hothers⟩
      | some receiver =>
          obtain ⟨first, hfirst, h⟩ := ok_of_bind h
          obtain ⟨others, hothers, h⟩ := ok_of_bind h
          cases h
          exact List.forall_mem_cons.mpr ⟨trivial,
            List.forall_mem_append.mpr ⟨proper_preorder hfirst, proper_preorderEach hothers⟩⟩
  | foreign f => cases h

theorem proper_preorderEach {args es : List Expr} (h : preorderEach args = .ok es) :
    ∀ x ∈ es, IsProper (.expr x) := by
  cases args with
  | nil =>
      cases h
      exact List.forall_mem_nil _
  | cons e rest =>
      obtain ⟨first, hfirst, h⟩ := ok_of_bind h
      obtain ⟨others, hothers, h⟩ := ok_of_bind h
      cases h
      exact List.forall_mem_append.mpr ⟨proper_preorder hfirst, proper_preorderEach hothers⟩

end

/-- Nothing foreign is harvested. -/
structure ProperHarvest (h : Harvest) : Prop where
  statements : ∀ s ∈ h.statements, IsProper (.stmt s)
  expressions : ∀ e ∈ h.expressions, IsProper (.expr e)

theorem ProperHarvest.append {a b : Harvest} (ha : ProperHarvest a) (hb : ProperHarvest b) :
    ProperHarvest (a.append b) where
  statements := List.forall_mem_append.mpr ⟨ha.statements, hb.statements⟩
  expressions := List.forall_mem_append.mpr ⟨ha.expressions, hb.expressions⟩

theorem properHarvest_singleton (s : Stmt) (hs : IsProper (.stmt s)) {es : List Expr}
    (hes : ∀ e ∈ es, IsProper (.expr e)) : ProperHarvest ⟨[s], es⟩ :=
  ⟨List.forall_mem_singleton.mpr hs, hes⟩

mutual

theorem proper_harvestStmt {s : Stmt} {harvest : Harvest} (h : harvestStmt s = .ok harvest) :
    ProperHarvest harvest := by
  cases s with
  | assign indent target value =>
      obtain ⟨first, hfirst, h⟩ := ok_of_bind h
      cases h
      exact properHarvest_singleton (.assign indent target value) trivial (proper_preorder hfirst)
  | call indent function =>
      obtain ⟨first, hfirst, h⟩ := ok_of_bind h
      cases h
      exact properHarvest_singleton (.call indent function) trivial (proper_preorder hfirst)
  | branch indent test body =>
      obtain ⟨inner, hinner, h⟩ := ok_of_bind h
      cases h
      exact (properHarvest_singleton (.branch indent test body) trivial (List.forall_mem_nil _)).append
        (proper_harvestBlock hinner)
  | loop indent head test body =>
      obtain ⟨inner, hinner, h⟩ := ok_of_bind h
      cases h
      exact (properHarvest_singleton (.loop indent head test body) trivial (List.forall_mem_nil _)).append
        (proper_harvestBlock hinner)
  | foreach indent name type container body =>
      obtain ⟨inner, hinner, h⟩ := ok_of_bind h
      cases h
      exact (properHarvest_singleton (.foreach indent name type container body) trivial (List.forall_mem_nil _)).append
        (proper_harvestBlock hinner)
  | foreign f => cases h

theorem proper_harvestBlock {body : List Stmt} {harvest : Harvest}
    (h : harvestBlock body = .ok harvest) : ProperHarvest harvest := by
  cases body with
  | nil =>
      cases h
      exact ⟨List.forall_mem_nil _, List.forall_mem_nil _⟩
  | cons s rest =>
      obtain ⟨first, hfirst, h⟩ := ok_of_bind h
      obtain ⟨others, hothers, h⟩ := ok_of_bind h
      cases h
      exact (proper_harvestStmt hfirst).append (proper_harvestBlock hothers)

end

theorem proper_fragments {p : Program} {harvest : Harvest} (h : fragments p = .ok harvest) :
    ProperHarvest harvest := by
  obtain ⟨body, hbody, h⟩ := ok_of_bind h
  cases hresult : p.result with
  | none =>
      rw [hresult] at h
      cases h
      exact proper_harvestBlock hbody
  | some e =>
      rw [hresult] at h
      obtain ⟨later, hlater, h⟩ := ok_of_bind h
      cases h
      exact (proper_harvestBlock hbody).append ⟨List.forall_mem_nil _, proper_preorder hlater⟩

theorem ProperHarvest.nodes {h : Harvest} (hh : ProperHarvest h) :
    ∀ n ∈ nodesOf h, IsProper n := by
  intro n hn
  rcases List.mem_append.mp hn with hn | hn
  · obtain ⟨s, hs, rfl⟩ := List.mem_map.mp hn
    exact hh.statements s hs
  · obtain ⟨e, he, rfl⟩ := List.mem_map.mp hn
    exact hh.expressions e he

/-- The node has a given encoding. -/
def hasCode (key : String) (n : Node) : Bool :=
  decide (encodeNode n = .ok key)

theorem countP_hasCode_singleton {n : Node} {key : String} (h : encodeNode n = .ok key)
    (other : String) : [n].countP (hasCode other) = if key = other then 1 else 0 := by
  simp only [List.countP_singleton, hasCode, h, Except.ok.injEq, decide_eq_true_eq]

/-- A corpus has counted some nodes, in this order: each encoding as often as it came up, and of
each it has kept the first node, the expressions under their types. -/
structure Tallied (seen : List Node) (c : Corpus) : Prop where
  counts : ∀ key, (c.counts.get? key).getD 0 = seen.countP (hasCode key)
  codes : (c.all.map encodeNode).Perm (c.counts.keys.map .ok)
  kept : ∀ n ∈ c.all, n ∈ seen
  coded : ∀ n ∈ seen, ∃ key ∈ c.counts.keys, encodeNode n = .ok key
  typed : ∀ entry ∈ c.expressions.entries, ∀ e ∈ entry.2, e.type.normal = entry.1

theorem tallied_empty : Tallied [] Corpus.empty where
  counts := fun _ => rfl
  codes := List.Perm.nil
  kept := List.forall_mem_nil _
  coded := List.forall_mem_nil _
  typed := List.forall_mem_nil _

section

variable {seen : List Node} {c d : Corpus} {n : Node} {key : String}

theorem keys_tally (c : Corpus) (key : String) :
    (c.tally key).counts.keys =
      if c.counts.contains key then c.counts.keys else c.counts.keys ++ [key] := by
  simp only [Corpus.tally, OrderedMap.alter, OrderedMap.keys_insert, OrderedMap.contains,
    decide_eq_true_eq]

theorem mem_keys_tally (c : Corpus) (key other : String) :
    other ∈ (c.tally key).counts.keys ↔ other ∈ c.counts.keys ∨ other = key :=
  mem_keys_insert c.counts key other _

theorem Tallied.counts_tally (h : Tallied seen c) (hn : encodeNode n = .ok key) (other : String) :
    ((c.tally key).counts.get? other).getD 0 = (seen ++ [n]).countP (hasCode other) := by
  rw [List.countP_append, countP_hasCode_singleton hn, ← h.counts other]
  simp only [Corpus.tally, OrderedMap.alter, OrderedMap.get?_insert]
  split
  · rename_i hkey
    rw [hkey]
    rfl
  · rfl

theorem Tallied.coded_tally (h : Tallied seen c) (hn : encodeNode n = .ok key) :
    ∀ m ∈ seen ++ [n], ∃ other ∈ (c.tally key).counts.keys, encodeNode m = .ok other := by
  intro m hm
  rcases List.mem_append.mp hm with hm | hm
  · obtain ⟨other, hother, hcode⟩ := h.coded m hm
    exact ⟨other, (mem_keys_tally c key other).mpr (.inl hother), hcode⟩
  · rw [List.mem_singleton.mp hm]
    exact ⟨key, (mem_keys_tally c key key).mpr (.inr rfl), hn⟩

theorem Tallied.again (h : Tallied seen c) (hn : encodeNode n = .ok key)
    (hkey : c.counts.contains key = true) : Tallied (seen ++ [n]) (c.tally key) where
  counts := h.counts_tally hn
  codes := by
    rw [keys_tally, if_pos hkey]
    exact h.codes
  kept := fun m hm => List.mem_append_left [n] (h.kept m hm)
  coded := h.coded_tally hn
  typed := h.typed

theorem Tallied.keep (h : Tallied seen c) (hn : encodeNode n = .ok key)
    (hkey : c.counts.contains key = false) (hcounts : d.counts = (c.tally key).counts)
    (hall : d.all.Perm (c.all ++ [n]))
    (htyped : ∀ entry ∈ d.expressions.entries, ∀ e ∈ entry.2, e.type.normal = entry.1) :
    Tallied (seen ++ [n]) d where
  counts := by
    rw [hcounts]
    exact h.counts_tally hn
  codes := by
    rw [hcounts, keys_tally, hkey]
    have hmap := hall.map encodeNode
    rw [List.map_append, List.map_singleton, hn] at hmap
    refine hmap.trans ?_
    simp only [Bool.false_eq_true, if_false, List.map_append, List.map_cons, List.map_nil]
    exact h.codes.append_right _
  kept := by
    intro m hm
    rcases List.mem_append.mp (hall.mem_iff.mp hm) with hm | hm
    · exact List.mem_append_left [n] (h.kept m hm)
    · exact List.mem_append_right seen hm
  coded := by
    rw [hcounts]
    exact h.coded_tally hn
  typed := htyped

theorem Tallied.addStatement (h : Tallied seen c) {s : Stmt} (hs : encodeStmt s = .ok key) :
    Tallied (seen ++ [.stmt s]) (c.addStatement key s) := by
  unfold Corpus.addStatement
  split
  · rename_i hkey
    exact h.again hs hkey
  · rename_i hkey
    refine h.keep hs (Bool.eq_false_iff.mpr hkey) rfl ?_ h.typed
    simp only [Corpus.all, Corpus.tally, List.map_append, List.map_cons, List.map_nil,
      List.append_assoc]
    exact List.Perm.refl _

theorem typed_put {key : TypeRef} {es : List Expr} {entries : List (TypeRef × List Expr)}
    (h : ∀ entry ∈ entries, ∀ e ∈ entry.2, e.type.normal = entry.1)
    (hes : ∀ e ∈ es, e.type.normal = key) :
    ∀ entry ∈ put key es entries, ∀ e ∈ entry.2, e.type.normal = entry.1 := by
  induction entries with
  | nil => exact List.forall_mem_singleton.mpr hes
  | cons entry rest ih =>
      obtain ⟨hfirst, hrest⟩ := List.forall_mem_cons.mp h
      unfold put
      split
      · rename_i htype
        exact List.forall_mem_cons.mpr ⟨fun e he => (hes e he).trans htype.symm, hrest⟩
      · exact List.forall_mem_cons.mpr ⟨hfirst, ih hrest⟩

theorem typed_alter {m : OrderedMap TypeRef (List Expr)}
    (h : ∀ entry ∈ m.entries, ∀ e ∈ entry.2, e.type.normal = entry.1) (x : Expr) :
    ∀ entry ∈ (m.alter x.type.normal [] (· ++ [x])).entries, ∀ e ∈ entry.2,
      e.type.normal = entry.1 := by
  refine typed_put h ?_
  intro e he
  rcases List.mem_append.mp he with he | he
  · cases hold : m.get? x.type.normal with
    | none =>
        rw [hold] at he
        exact (List.not_mem_nil he).elim
    | some old =>
        rw [hold] at he
        exact h _ ((get?_eq_some_iff m _ old).mp hold) e he
  · rw [List.mem_singleton.mp he]

theorem Tallied.addExpression (h : Tallied seen c) {e : Expr} (he : encode e = .ok key) :
    Tallied (seen ++ [.expr e]) (c.addExpression key e) := by
  unfold Corpus.addExpression
  split
  · rename_i hkey
    exact h.again he hkey
  · rename_i hkey
    refine h.keep he (Bool.eq_false_iff.mpr hkey) rfl ?_ (typed_alter h.typed e)
    have hflatten := (perm_flatten_alter c.expressions e.type.normal e).map Node.expr
    rw [List.map_append] at hflatten
    simp only [Corpus.all, Corpus.tally]
    refine (hflatten.append_right _).trans ?_
    rw [List.append_assoc, List.append_assoc]
    exact List.perm_append_comm.append_left _

theorem Tallied.addStatements (h : Tallied seen c) {ss : List Stmt}
    (hd : c.addStatements ss = (d, none)) : Tallied (seen ++ ss.map .stmt) d := by
  induction ss generalizing seen c with
  | nil =>
      cases hd
      simpa using h
  | cons s rest ih =>
      rw [Corpus.addStatements] at hd
      cases hcode : encodeStmt s with
      | error fault =>
          rw [hcode] at hd
          cases hd
      | ok key =>
          rw [hcode] at hd
          have hrest := ih (h.addStatement hcode) hd
          rwa [List.append_assoc] at hrest

theorem Tallied.addExpressions (h : Tallied seen c) {es : List Expr}
    (hd : c.addExpressions es = (d, none)) : Tallied (seen ++ es.map .expr) d := by
  induction es generalizing seen c with
  | nil =>
      cases hd
      simpa using h
  | cons e rest ih =>
      rw [Corpus.addExpressions] at hd
      cases hcode : encode e with
      | error fault =>
          rw [hcode] at hd
          cases hd
      | ok key =>
          rw [hcode] at hd
          dsimp only at hd
          split at hd
          · have hrest := ih (h.addExpression hcode) hd
            rwa [List.append_assoc] at hrest
          · cases hd

theorem Tallied.addHarvest (h : Tallied seen c) {harvest : Harvest}
    (hd : c.addHarvest harvest = (d, none)) : Tallied (seen ++ nodesOf harvest) d := by
  unfold Corpus.addHarvest at hd
  split at hd
  · rename_i middle hmiddle
    have hall := (h.addStatements hmiddle).addExpressions hd
    rwa [List.append_assoc] at hall
  · cases hd

end

section

variable {seen : List Node} {c : Corpus}

theorem Tallied.nodup_codes (h : Tallied seen c) : (c.all.map encodeNode).Nodup := by
  refine h.codes.nodup_iff.mpr (List.Nodup.map ?_ c.counts.nodup_keys)
  exact fun _ _ => Except.ok.inj

theorem Tallied.size_eq (h : Tallied seen c) : c.size = c.all.length := by
  have hlength := h.codes.length_eq
  rw [List.length_map, List.length_map, OrderedMap.keys, List.length_map] at hlength
  exact hlength.symm

/-- Whether a node counts as equal to another one. -/
def equals (n f : Node) : Bool :=
  decide (sameNode n f = .ok true)

/-- Of what was counted, exactly one node is kept that is equal to it. -/
theorem Tallied.countP_equals (h : Tallied seen c) (hseen : ∀ m ∈ seen, IsProper m) {n : Node}
    (hn : n ∈ seen) : c.all.countP (equals n) = 1 := by
  obtain ⟨key, hkey, hcode⟩ := h.coded n hn
  have hequals : ∀ f ∈ c.all, equals n f = true ↔ (encodeNode f == .ok key) = true := by
    intro f hf
    obtain ⟨other, -, hother⟩ := h.coded f (h.kept f hf)
    rw [equals, sameNode_eq (hseen n hn) (hseen f (h.kept f hf)) hcode hother, hother,
      decide_eq_true_iff, Except.ok.injEq, decide_eq_true_iff, beq_iff_eq, Except.ok.injEq]
    exact eq_comm
  have hcount : c.all.countP (equals n) = (c.all.map encodeNode).count (.ok key) := by
    rw [List.count, List.countP_map]
    exact List.countP_congr hequals
  rw [hcount]
  refine List.count_eq_one_of_mem h.nodup_codes ?_
  exact h.codes.mem_iff.mpr (List.mem_map_of_mem hkey)

theorem Tallied.frequency_eq (h : Tallied seen c) {f : Node} {key : String}
    (hf : encodeNode f = .ok key) : c.frequency f = .ok (seen.countP (hasCode key)) := by
  rw [← h.counts key]
  cases f with
  | expr e => simp only [Corpus.frequency, hf]; rfl
  | stmt s => simp only [Corpus.frequency, hf]; rfl
  | text s => cases hf
  | absent => cases hf

end

end FragmentSynthesis.Proofs.CorpusCounts
