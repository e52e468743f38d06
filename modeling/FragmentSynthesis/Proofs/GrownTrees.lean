import FragmentSynthesis.Proofs.LargestCounts

/-!
Searches in trees that have grown. A statement goes on from another one if blocks have got longer at
their ends and open tests have been closed. Since parts are compared by their place from the front,
nothing that a fragment finds in a statement is lost where the statement goes on.
-/

namespace FragmentSynthesis.Proofs.GrownTrees

open FragmentSynthesis.Expression
open FragmentSynthesis.Faults
open FragmentSynthesis.Matching
open FragmentSynthesis.Programs
open FragmentSynthesis.Proofs.FullMatches
open FragmentSynthesis.Proofs.LargestCounts
open FragmentSynthesis.Proofs.MatchCounts
open FragmentSynthesis.Statement
open FragmentSynthesis.Weight

/-- An open test may have become a concrete one. -/
inductive TestExtends : Test → Test → Prop
  | same (test : Test) : TestExtends test test
  | closed (remembered : Option Expr) (e : Expr) : TestExtends (.angelic remembered) (.concrete e)

mutual

/-- A statement goes on from another one of the same form and with the same expressions. -/
inductive Extends : Stmt → Stmt → Prop
  | assign (indent : Int) (target value : Expr) :
      Extends (.assign indent target value) (.assign indent target value)
  | call (indent : Int) (function : Expr) : Extends (.call indent function) (.call indent function)
  | branch (indent : Int) {test test' : Test} {body body' : List Stmt}
      (htest : TestExtends test test') (hbody : BlockExtends body body') :
      Extends (.branch indent test body) (.branch indent test' body')
  | loop (indent : Int) (head : LoopHead) {test test' : Test} {body body' : List Stmt}
      (htest : TestExtends test test') (hbody : BlockExtends body body') :
      Extends (.loop indent head test body) (.loop indent head test' body')
  | foreach (indent : Int) (name type : String) (container : Expr) {body body' : List Stmt}
      (hbody : BlockExtends body body') :
      Extends (.foreach indent name type container body) (.foreach indent name type container body')
  | foreign (f : ForeignStmt) : Extends (.foreign f) (.foreign f)

/-- The statements of a block go on from those of another one, and there may be more behind them. -/
inductive BlockExtends : List Stmt → List Stmt → Prop
  | nil (body : List Stmt) : BlockExtends [] body
  | cons {s s' : Stmt} {rest rest' : List Stmt} (hfirst : Extends s s')
      (hrest : BlockExtends rest rest') : BlockExtends (s :: rest) (s' :: rest')

end

mutual

theorem extends_refl (s : Stmt) : Extends s s := by
  cases s with
  | assign indent target value => exact .assign indent target value
  | call indent function => exact .call indent function
  | branch indent test body => exact .branch indent (.same test) (blockExtends_refl body)
  | loop indent head test body => exact .loop indent head (.same test) (blockExtends_refl body)
  | foreach indent name type container body =>
      exact .foreach indent name type container (blockExtends_refl body)
  | foreign f => exact .foreign f

theorem blockExtends_refl (body : List Stmt) : BlockExtends body body := by
  cases body with
  | nil => exact .nil []
  | cons s rest => exact .cons (extends_refl s) (blockExtends_refl rest)

end

theorem blockExtends_append (body others : List Stmt) : BlockExtends body (body ++ others) := by
  induction body with
  | nil => exact .nil others
  | cons s rest ih => exact .cons (extends_refl s) ih

theorem blockExtends_within {s t : Stmt} (h : Extends s t) (front back : List Stmt) :
    BlockExtends (front ++ s :: back) (front ++ t :: back) := by
  induction front with
  | nil => exact .cons h (blockExtends_refl back)
  | cons first rest ih => exact .cons (extends_refl first) ih

theorem TestExtends.comparable {test test' : Test} (h : TestExtends test test')
    (htest' : TestComparable test') : TestComparable test := by
  cases h with
  | same => exact htest'
  | closed remembered e => exact trivial

mutual

theorem searchable_of_extends (s s' : Stmt) (h : Extends s s') (hs' : StmtSearchable s') :
    StmtSearchable s := by
  cases h with
  | assign indent target value => exact hs'
  | call indent function => exact hs'
  | branch indent htest hbody =>
      exact ⟨htest.comparable hs'.1, blockSearchable_of_extends _ _ hbody hs'.2⟩
  | loop indent head htest hbody =>
      exact ⟨htest.comparable hs'.1, blockSearchable_of_extends _ _ hbody hs'.2⟩
  | foreach indent name type container hbody =>
      exact ⟨hs'.1, blockSearchable_of_extends _ _ hbody hs'.2⟩
  | foreign f => exact hs'

theorem blockSearchable_of_extends (body body' : List Stmt) (h : BlockExtends body body')
    (hbody' : BlockSearchable body') : BlockSearchable body := by
  cases h with
  | nil => exact trivial
  | cons hfirst hrest =>
      exact ⟨searchable_of_extends _ _ hfirst hbody'.1, blockSearchable_of_extends _ _ hrest hbody'.2⟩

end

/-- Two analyses answer, the first one with no larger a number. -/
def NoMore (x y : Except Fault Nat) : Prop :=
  ∃ m n, x = .ok m ∧ y = .ok n ∧ m ≤ n

section

variable {x x' y y' z z' : Except Fault Nat}

theorem noMore_of_atMost {bound : Nat} (hx : AtMost bound x) : NoMore x x := by
  obtain ⟨n, hn, -⟩ := hx
  exact ⟨n, n, hn, hn, le_refl n⟩

theorem noMore_zero : NoMore (.ok 0) (.ok 0) :=
  ⟨0, 0, rfl, rfl, le_refl 0⟩

theorem NoMore.right (h : NoMore x y) : NoMore y y := by
  obtain ⟨-, n, -, hn, -⟩ := h
  exact ⟨n, n, hn, hn, le_refl n⟩

theorem NoMore.nothing (h : NoMore x y) : NoMore (.ok 0) y := by
  obtain ⟨-, n, -, hn, -⟩ := h
  exact ⟨0, n, rfl, hn, Nat.zero_le n⟩

theorem NoMore.trans (h : NoMore x y) (h' : NoMore y z) : NoMore x z := by
  obtain ⟨l, m, hl, hm, hle⟩ := h
  obtain ⟨m', n, hm', hn, hle'⟩ := h'
  obtain rfl := Except.ok.inj (hm.symm.trans hm')
  exact ⟨l, n, hl, hn, Nat.le_trans hle hle'⟩

theorem NoMore.add (hx : NoMore x x') (hy : NoMore y y') :
    NoMore (do let m ← x; let n ← y; return m + n) (do let m ← x'; let n ← y'; return m + n) := by
  obtain ⟨m, m', rfl, rfl, hm⟩ := hx
  obtain ⟨n, n', rfl, rfl, hn⟩ := hy
  exact ⟨m + n, m' + n', rfl, rfl, Nat.add_le_add hm hn⟩

theorem NoMore.node (hx : NoMore x x') (hy : NoMore y y') :
    NoMore (do let m ← x; let n ← y; return 1 + m + n)
      (do let m ← x'; let n ← y'; return 1 + m + n) := by
  obtain ⟨m, m', rfl, rfl, hm⟩ := hx
  obtain ⟨n, n', rfl, rfl, hn⟩ := hy
  exact ⟨1 + m + n, 1 + m' + n', rfl, rfl, by omega⟩

theorem NoMore.larger (hx : NoMore x x') (hy : NoMore y y') :
    NoMore (do let m ← x; let n ← y; return max m n)
      (do let m ← x'; let n ← y'; return max m n) := by
  obtain ⟨m, m', rfl, rfl, hm⟩ := hx
  obtain ⟨n, n', rfl, rfl, hn⟩ := hy
  exact ⟨max m n, max m' n', rfl, rfl, max_le_max hm hn⟩

theorem NoMore.or (hx : NoMore x x') (hy : NoMore y y) :
    NoMore x (do let m ← x'; let n ← y; return max m n) := by
  obtain ⟨m, m', rfl, rfl, hm⟩ := hx
  obtain ⟨n, -, rfl, -⟩ := hy
  exact ⟨m, max m' n, rfl, rfl, Nat.le_trans hm (Nat.le_max_left m' n)⟩

theorem noMore_mismatch {kind otherKind : String} (h : kind ≠ otherKind) :
    NoMore (countMismatch kind otherKind) (countMismatch kind otherKind) :=
  noMore_of_atMost (atMost_mismatch h 0)

end

theorem count_noMore {f e : Expr} (hf : Comparable f) (he : Comparable e) :
    NoMore (count f e) (count f e) :=
  noMore_of_atMost (count_atMost f e hf he)

theorem countTests_noMore {f test test' : Test} (hf : TestComparable f) (h : TestExtends test test')
    (htest' : TestComparable test') : NoMore (countTests f test) (countTests f test') := by
  have hcount := noMore_of_atMost (countTests_atMost f test' hf htest')
  cases h with
  | same => exact hcount
  | closed remembered e =>
      -- With an open test nothing is compared.
      cases f with
      | concrete e' => exact hcount.nothing
      | angelic remembered' => exact hcount.nothing
      | blank => exact hf.elim
      | unknown => exact hf.elim

mutual

theorem countStmt_noMore (f s s' : Stmt) (hf : StmtSearchable f) (h : Extends s s')
    (hs' : StmtSearchable s') : NoMore (countStmt f s) (countStmt f s') := by
  cases f with
  | assign indent target value =>
      cases h with
      | assign indent' target' value' =>
          exact (count_noMore hf.1 hs'.1).node (count_noMore hf.2 hs'.2)
      | foreign g => exact hs'.elim
      | _ => exact noMore_mismatch (by simp [Stmt.kindName])
  | call indent function =>
      cases h with
      | call indent' function' => exact count_noMore hf hs'
      | foreign g => exact hs'.elim
      | _ => exact noMore_mismatch (by simp [Stmt.kindName])
  | branch indent test body =>
      cases h with
      | branch indent' htest hbody =>
          exact (countTests_noMore hf.1 htest hs'.1).node
            (countBlock_noMore body _ _ hf.2 hbody hs'.2)
      | foreign g => exact hs'.elim
      | _ => exact noMore_mismatch (by simp [Stmt.kindName])
  | loop indent head test body =>
      cases h with
      | loop indent' head' htest hbody =>
          exact (countTests_noMore hf.1 htest hs'.1).node
            (countBlock_noMore body _ _ hf.2 hbody hs'.2)
      | foreign g => exact hs'.elim
      | _ => exact noMore_mismatch (by simp [Stmt.kindName])
  | foreach indent name type container body =>
      cases h with
      | foreach indent' name' type' container' hbody =>
          exact (count_noMore hf.1 hs'.1).node (countBlock_noMore body _ _ hf.2 hbody hs'.2)
      | foreign g => exact hs'.elim
      | _ => exact noMore_mismatch (by simp [Stmt.kindName])
  | foreign g => exact hf.elim

theorem countBlock_noMore (fs body body' : List Stmt) (hfs : BlockSearchable fs)
    (h : BlockExtends body body') (hbody' : BlockSearchable body') :
    NoMore (countBlock fs body) (countBlock fs body') := by
  cases fs with
  | nil => exact noMore_zero
  | cons f rest =>
      cases h with
      | nil =>
          cases body' with
          | nil => exact noMore_zero
          | cons s' others' =>
              have hfirst := countStmt_noMore f s' s' hfs.1 (extends_refl s') hbody'.1
              have hothers := countBlock_noMore rest [] others' hfs.2 (.nil others') hbody'.2
              exact (hfirst.add hothers.right).nothing
      | cons hfirst hrest =>
          exact (countStmt_noMore f _ _ hfs.1 hfirst hbody'.1).add
            (countBlock_noMore rest _ _ hfs.2 hrest hbody'.2)

end

theorem search_noMore {f e : Expr} (hf : Comparable f) (he : Comparable e) :
    NoMore (search f e) (search f e) :=
  noMore_of_atMost (search_atMost f e hf he)

theorem searchTest_noMore {f : Expr} {test test' : Test} (hf : Comparable f)
    (h : TestExtends test test') (htest' : TestComparable test') :
    NoMore (searchTest f test) (searchTest f test') := by
  have hsearch := noMore_of_atMost (searchTest_atMost f test' hf htest')
  cases h with
  | same => exact hsearch
  | closed remembered e => exact hsearch.nothing

mutual

theorem searchInStmt_noMore (f : Expr) (s s' : Stmt) (hf : Comparable f) (h : Extends s s')
    (hs' : StmtSearchable s') : NoMore (searchInStmt f s) (searchInStmt f s') := by
  cases s' with
  | assign indent target value =>
      cases h
      exact (search_noMore hf hs'.1).larger (search_noMore hf hs'.2)
  | call indent function =>
      cases h
      exact search_noMore hf hs'
  | branch indent test body =>
      cases h with
      | branch _ htest hbody =>
          exact (searchTest_noMore hf htest hs'.1).larger
            (searchInBlock_noMore f _ body hf hbody hs'.2)
  | loop indent head test body =>
      cases h with
      | loop _ _ htest hbody =>
          exact (searchTest_noMore hf htest hs'.1).larger
            (searchInBlock_noMore f _ body hf hbody hs'.2)
  | foreach indent name type container body =>
      cases h with
      | foreach _ _ _ _ hbody =>
          exact (search_noMore hf hs'.1).larger (searchInBlock_noMore f _ body hf hbody hs'.2)
  | foreign g => exact hs'.elim

theorem searchInBlock_noMore (f : Expr) (body body' : List Stmt) (hf : Comparable f)
    (h : BlockExtends body body') (hbody' : BlockSearchable body') :
    NoMore (searchInBlock f body) (searchInBlock f body') := by
  cases body' with
  | nil =>
      cases h
      exact noMore_zero
  | cons s' rest' =>
      cases h with
      | nil =>
          have hfirst := searchInStmt_noMore f s' s' hf (extends_refl s') hbody'.1
          have hothers := searchInBlock_noMore f [] rest' hf (.nil rest') hbody'.2
          exact (hfirst.larger hothers.right).nothing
      | cons hfirst hrest =>
          exact (searchInStmt_noMore f _ s' hf hfirst hbody'.1).larger
            (searchInBlock_noMore f _ rest' hf hrest hbody'.2)

end

mutual

theorem searchStmt_noMore (f s s' : Stmt) (hf : StmtSearchable f) (h : Extends s s')
    (hs' : StmtSearchable s') : NoMore (searchStmt f s) (searchStmt f s') := by
  have hhere := countStmt_noMore f s s' hf h hs'
  cases s' with
  | assign indent target value =>
      cases h
      exact hhere
  | call indent function =>
      cases h
      exact hhere
  | branch indent test body =>
      cases h with
      | branch _ htest hbody => exact hhere.larger (searchBlock_noMore f _ body hf hbody hs'.2)
  | loop indent head test body =>
      cases h with
      | loop _ _ htest hbody => exact hhere.larger (searchBlock_noMore f _ body hf hbody hs'.2)
  | foreach indent name type container body =>
      cases h with
      | foreach _ _ _ _ hbody => exact hhere.larger (searchBlock_noMore f _ body hf hbody hs'.2)
  | foreign g => exact hs'.elim

theorem searchBlock_noMore (f : Stmt) (body body' : List Stmt) (hf : StmtSearchable f)
    (h : BlockExtends body body') (hbody' : BlockSearchable body') :
    NoMore (searchBlock f body) (searchBlock f body') := by
  cases body' with
  | nil =>
      cases h
      exact noMore_zero
  | cons s' rest' =>
      cases h with
      | nil =>
          have hfirst := searchStmt_noMore f s' s' hf (extends_refl s') hbody'.1
          have hothers := searchBlock_noMore f [] rest' hf (.nil rest') hbody'.2
          exact (hfirst.larger hothers.right).nothing
      | cons hfirst hrest =>
          exact (searchStmt_noMore f _ s' hf hfirst hbody'.1).larger
            (searchBlock_noMore f _ rest' hf hrest hbody'.2)

end

/-- Everything that a search through the program comes by can be compared. -/
structure ProgramSearchable (p : Program) : Prop where
  body : BlockSearchable p.statements
  result : ∀ e ∈ p.result, Comparable e

/-- A program goes on from another one, whose result it keeps. -/
structure ProgramExtends (p q : Program) : Prop where
  body : BlockExtends p.statements q.statements
  result : ∀ e ∈ p.result, q.result = some e

theorem ProgramExtends.refl (p : Program) : ProgramExtends p p :=
  ⟨blockExtends_refl p.statements, fun _ he => he⟩

variable {p q : Program}

theorem ProgramExtends.searchable (h : ProgramExtends p q) (hq : ProgramSearchable q) :
    ProgramSearchable p where
  body := blockSearchable_of_extends _ _ h.body hq.body
  result e he := hq.result e (h.result e he)

theorem bestMatch_expr_noMore {f : Expr} (hf : Comparable f) (h : ProgramExtends p q)
    (hq : ProgramSearchable q) : NoMore (bestMatch (.expr f) p) (bestMatch (.expr f) q) := by
  have hbody := searchInBlock_noMore f p.statements q.statements hf h.body hq.body
  cases hresult : p.result with
  | some e =>
      have hresult' : q.result = some e := h.result e hresult
      simp only [bestMatch, hresult, hresult']
      exact hbody.larger (search_noMore hf (hq.result e hresult'))
  | none =>
      cases hresult' : q.result with
      | some e =>
          simp only [bestMatch, hresult, hresult', bind_pure]
          exact hbody.or (search_noMore hf (hq.result e hresult'))
      | none =>
          simp only [bestMatch, hresult, hresult', bind_pure]
          exact hbody

theorem bestMatch_noMore {f : Node} (hf : NodeSearchable f) (h : ProgramExtends p q)
    (hq : ProgramSearchable q) : NoMore (bestMatch f p) (bestMatch f q) := by
  cases f with
  | expr f => exact bestMatch_expr_noMore hf h hq
  | stmt f => exact searchBlock_noMore f p.statements q.statements hf h.body hq.body
  | text _ => exact hf.elim
  | absent => exact hf.elim

end FragmentSynthesis.Proofs.GrownTrees
