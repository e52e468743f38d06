import FragmentSynthesis.Proofs.GrownTrees
import FragmentSynthesis.Proofs.ImageMeasures
import FragmentSynthesis.Proofs.PreorderNodes

/-!
Searches as maxima over listings. The searches go through expressions and statements in their own
way and keep the largest count so far. What they answer is the maximum over the nodes that the
traversals list, and where a count fails, it is the first failure in the order of the listing.
-/

namespace FragmentSynthesis.Proofs.SearchMaxima

open FragmentSynthesis.Expression
open FragmentSynthesis.Faults
open FragmentSynthesis.Matching
open FragmentSynthesis.Operators
open FragmentSynthesis.Proofs.GrownTrees
open FragmentSynthesis.Proofs.ImageMeasures
open FragmentSynthesis.Proofs.LargestCounts
open FragmentSynthesis.Proofs.MatchCounts
open FragmentSynthesis.Proofs.PreorderNodes
open FragmentSynthesis.Statement
open FragmentSynthesis.Traversal

/-- The maximum of what is measured at the members of a list, zero if there are none. -/
def greatest {α : Type} (measure : α → Except Fault Nat) (xs : List α) : Except Fault Nat :=
  (xs.mapM measure).map fun measured => measured.max?.getD 0

theorem max?_getD_cons (m : Nat) (ns : List Nat) :
    (m :: ns).max?.getD 0 = max m (ns.max?.getD 0) := by
  rw [List.max?_cons]
  cases ns.max? with
  | none => exact (Nat.max_zero m).symm
  | some n => rfl

theorem max?_getD_append (ms ns : List Nat) :
    (ms ++ ns).max?.getD 0 = max (ms.max?.getD 0) (ns.max?.getD 0) := by
  induction ms with
  | nil => exact (Nat.zero_max _).symm
  | cons m rest ih => rw [List.cons_append, max?_getD_cons, max?_getD_cons, ih, Nat.max_assoc]

section

variable {α : Type} {measure : α → Except Fault Nat} {x : α} {xs ys : List α}

theorem greatest_singleton : greatest measure [x] = measure x := by
  rw [greatest, List.mapM_cons]
  cases measure x <;> rfl

theorem greatest_append :
    greatest measure (xs ++ ys) = do
      let first ← greatest measure xs
      let second ← greatest measure ys
      return max first second := by
  simp only [greatest, List.mapM_append]
  cases xs.mapM measure with
  | error fault => rfl
  | ok ms =>
      cases ys.mapM measure with
      | error fault => rfl
      | ok ns => exact congrArg Except.ok (max?_getD_append ms ns)

theorem greatest_cons :
    greatest measure (x :: xs) = do
      let here ← measure x
      let below ← greatest measure xs
      return max here below := by
  rw [← List.singleton_append, greatest_append, greatest_singleton]

theorem greatest_pair {y : α} :
    greatest measure [x, y] = do
      let first ← measure x
      let second ← measure y
      return max first second := by
  rw [greatest_cons, greatest_singleton]

theorem greatest_cons_append :
    greatest measure (x :: (xs ++ ys)) = do
      let here ← measure x
      let first ← greatest measure xs
      let second ← greatest measure ys
      return max (max here first) second := by
  rw [← List.cons_append, greatest_append, greatest_cons]
  simp only [bind_assoc, pure_bind]

end

mutual

theorem search_eq_greatest (f e : Expr) (he : e.isKnown = true) :
    search f e = greatest (count f) (nodes e) := by
  cases e with
  | literal value type => exact greatest_singleton.symm
  | «variable» name type => exact greatest_singleton.symm
  | unary op operand =>
      rw [search, search_eq_greatest f operand he]
      exact greatest_cons.symm
  | binary op left right =>
      obtain ⟨hleft, hright⟩ := Bool.and_eq_true_iff.mp he
      rw [search, search_eq_greatest f left hleft, search_eq_greatest f right hright]
      exact greatest_cons_append.symm
  | use component receiver args =>
      cases receiver with
      | none =>
          rw [search, searchEach_eq_greatest f args he]
          exact greatest_cons.symm
      | some receiver =>
          obtain ⟨hreceiver, hargs⟩ := Bool.and_eq_true_iff.mp he
          rw [search, search_eq_greatest f receiver hreceiver, searchEach_eq_greatest f args hargs]
          exact greatest_cons_append.symm
  | foreign g => cases he

theorem searchEach_eq_greatest (f : Expr) (args : List Expr) (hargs : argsKnown args = true) :
    searchEach f args = greatest (count f) (nodesOfEach args) := by
  cases args with
  | nil => rfl
  | cons e rest =>
      obtain ⟨he, hrest⟩ := Bool.and_eq_true_iff.mp hargs
      rw [searchEach, search_eq_greatest f e he, searchEach_eq_greatest f rest hrest]
      exact greatest_append.symm

end

mutual

/-- A statement and all that are nested in it, foreign ones too. -/
def listing : Stmt → List Stmt
  | .assign indent target value => [.assign indent target value]
  | .call indent function => [.call indent function]
  | .branch indent test body => .branch indent test body :: listingOfBlock body
  | .loop indent head test body => .loop indent head test body :: listingOfBlock body
  | .foreach indent name type container body =>
      .foreach indent name type container body :: listingOfBlock body
  | .foreign f => [.foreign f]

def listingOfBlock : List Stmt → List Stmt
  | [] => []
  | s :: rest => listing s ++ listingOfBlock rest

end

theorem searchTest_eq_greatest (f : Expr) {test : Test} (htest : TestComparable test) :
    searchTest f test = greatest (search f) (exprsOfTest test) := by
  cases test with
  | concrete e => exact greatest_singleton.symm
  | angelic remembered => rfl
  | blank => exact htest.elim
  | unknown => exact htest.elim

/-- The traversal of a statement and the two searches in it go through one listing. -/
structure GoesThrough (s : Stmt) (listed : List Stmt) : Prop where
  traversed : preorderStmt s = .ok listed
  searched (f : Stmt) : searchStmt f s = greatest (countStmt f) listed
  searchedIn (f : Expr) : searchInStmt f s = greatest (search f) (listed.flatMap exprsOf)

/-- The same for the statements of a block. -/
structure BlockGoesThrough (body listed : List Stmt) : Prop where
  traversed : preorderBlock body = .ok listed
  searched (f : Stmt) : searchBlock f body = greatest (countStmt f) listed
  searchedIn (f : Expr) : searchInBlock f body = greatest (search f) (listed.flatMap exprsOf)

mutual

theorem goesThrough_listing (s : Stmt) (hs : StmtSearchable s) : GoesThrough s (listing s) := by
  cases s with
  | assign indent target value =>
      exact ⟨rfl, fun f => greatest_singleton.symm, fun f => greatest_pair.symm⟩
  | call indent function =>
      exact ⟨rfl, fun f => greatest_singleton.symm, fun f => greatest_singleton.symm⟩
  | branch indent test body =>
      have h := blockGoesThrough_listing body hs.2
      refine ⟨?_, fun f => ?_, fun f => ?_⟩
      · rw [preorderStmt, h.traversed]
        rfl
      · rw [searchStmt, h.searched]
        exact greatest_cons.symm
      · rw [searchInStmt, searchTest_eq_greatest f hs.1, h.searchedIn]
        exact greatest_append.symm
  | loop indent head test body =>
      have h := blockGoesThrough_listing body hs.2
      refine ⟨?_, fun f => ?_, fun f => ?_⟩
      · rw [preorderStmt, h.traversed]
        rfl
      · rw [searchStmt, h.searched]
        exact greatest_cons.symm
      · rw [searchInStmt, searchTest_eq_greatest f hs.1, h.searchedIn]
        exact greatest_append.symm
  | foreach indent name type container body =>
      have h := blockGoesThrough_listing body hs.2
      refine ⟨?_, fun f => ?_, fun f => ?_⟩
      · rw [preorderStmt, h.traversed]
        rfl
      · rw [searchStmt, h.searched]
        exact greatest_cons.symm
      · rw [searchInStmt, h.searchedIn]
        exact greatest_cons.symm
  | foreign g => exact hs.elim

theorem blockGoesThrough_listing (body : List Stmt) (hbody : BlockSearchable body) :
    BlockGoesThrough body (listingOfBlock body) := by
  cases body with
  | nil => exact ⟨rfl, fun f => rfl, fun f => rfl⟩
  | cons s rest =>
      have h := goesThrough_listing s hbody.1
      have hothers := blockGoesThrough_listing rest hbody.2
      refine ⟨?_, fun f => ?_, fun f => ?_⟩
      · rw [preorderBlock, h.traversed, hothers.traversed]
        rfl
      · rw [searchBlock, h.searched, hothers.searched]
        exact greatest_append.symm
      · rw [searchInBlock, h.searchedIn, hothers.searchedIn, listingOfBlock, List.flatMap_append]
        exact greatest_append.symm

end

mutual

theorem comparable_of_mem_nodes (e : Expr) (he : Comparable e) : ∀ x ∈ nodes e, Comparable x := by
  cases e with
  | literal value type => exact List.forall_mem_singleton.mpr he
  | «variable» name type => exact List.forall_mem_singleton.mpr he
  | unary op operand => exact List.forall_mem_cons.mpr ⟨he, comparable_of_mem_nodes operand he⟩
  | binary op left right =>
      exact List.forall_mem_cons.mpr ⟨he, List.forall_mem_append.mpr
        ⟨comparable_of_mem_nodes left he.1, comparable_of_mem_nodes right he.2⟩⟩
  | use component receiver args =>
      cases receiver with
      | none => exact List.forall_mem_cons.mpr ⟨he, comparable_of_mem_nodesOfEach args he⟩
      | some receiver =>
          exact List.forall_mem_cons.mpr ⟨he, List.forall_mem_append.mpr
            ⟨comparable_of_mem_nodes receiver he.1, comparable_of_mem_nodesOfEach args he.2⟩⟩
  | foreign f => exact he.elim

theorem comparable_of_mem_nodesOfEach (args : List Expr) (hargs : EachComparable args) :
    ∀ x ∈ nodesOfEach args, Comparable x := by
  cases args with
  | nil => exact List.forall_mem_nil _
  | cons e rest =>
      exact List.forall_mem_append.mpr
        ⟨comparable_of_mem_nodes e hargs.1, comparable_of_mem_nodesOfEach rest hargs.2⟩

end

mutual

theorem searchable_of_mem_listing (s : Stmt) (hs : StmtSearchable s) :
    ∀ t ∈ listing s, StmtSearchable t := by
  cases s with
  | assign indent target value => exact List.forall_mem_singleton.mpr hs
  | call indent function => exact List.forall_mem_singleton.mpr hs
  | branch indent test body =>
      exact List.forall_mem_cons.mpr ⟨hs, searchable_of_mem_listingOfBlock body hs.2⟩
  | loop indent head test body =>
      exact List.forall_mem_cons.mpr ⟨hs, searchable_of_mem_listingOfBlock body hs.2⟩
  | foreach indent name type container body =>
      exact List.forall_mem_cons.mpr ⟨hs, searchable_of_mem_listingOfBlock body hs.2⟩
  | foreign f => exact hs.elim

theorem searchable_of_mem_listingOfBlock (body : List Stmt) (hbody : BlockSearchable body) :
    ∀ t ∈ listingOfBlock body, StmtSearchable t := by
  cases body with
  | nil => exact List.forall_mem_nil _
  | cons s rest =>
      exact List.forall_mem_append.mpr
        ⟨searchable_of_mem_listing s hbody.1, searchable_of_mem_listingOfBlock rest hbody.2⟩

end

theorem isKnown_of_comparable {e : Expr} (he : Comparable e) : e.isKnown = true := by
  refine (isKnown_iff e).mpr fun x hx hforeign => ?_
  have hcomparable := comparable_of_mem_nodes e he x hx
  cases x with
  | foreign f => exact hcomparable
  | _ => exact hforeign

theorem answers_count {f e : Expr} (hf : Comparable f) (he : Comparable e) :
    Answers (count f e) := by
  obtain ⟨n, hn, -⟩ := count_atMost f e hf he
  exact ⟨n, hn⟩

theorem answers_countStmt {f s : Stmt} (hf : StmtSearchable f) (hs : StmtSearchable s) :
    Answers (countStmt f s) := by
  obtain ⟨n, -, hn, -⟩ := countStmt_noMore f s s hf (extends_refl s) hs
  exact ⟨n, hn⟩

theorem answers_mapM {α β : Type} {measure : α → Except Fault β} {xs : List α}
    (h : ∀ x ∈ xs, Answers (measure x)) : Answers (xs.mapM measure) := by
  induction xs with
  | nil => exact ⟨[], rfl⟩
  | cons x rest ih =>
      obtain ⟨hx, hrest⟩ := List.forall_mem_cons.mp h
      rw [List.mapM_cons]
      exact hx.both (ih hrest) List.cons

section

variable {α : Type} {measure : α → Except Fault Nat} {xs : List α} {result : Except Fault Nat}

/-- An analysis answers with the maximum of what is measured at the members of a list. -/
def IsMaximum (measure : α → Except Fault Nat) (xs : List α) (result : Except Fault Nat) : Prop :=
  ∃ measured m, xs.mapM measure = .ok measured ∧ measured.max? = some m ∧ result = .ok m

/-- The same, where an analysis answers zero for an empty list. -/
def IsMaximumOrZero (measure : α → Except Fault Nat) (xs : List α) (result : Except Fault Nat) :
    Prop :=
  ∃ measured, xs.mapM measure = .ok measured ∧ result = .ok (measured.max?.getD 0)

theorem isMaximumOrZero_greatest (h : ∀ x ∈ xs, Answers (measure x)) :
    IsMaximumOrZero measure xs (greatest measure xs) := by
  obtain ⟨measured, hmeasured⟩ := answers_mapM h
  exact ⟨measured, hmeasured, congrArg (Except.map _) hmeasured⟩

theorem IsMaximumOrZero.isMaximum (h : IsMaximumOrZero measure xs result) (hxs : xs ≠ []) :
    IsMaximum measure xs result := by
  obtain ⟨measured, hmeasured, hresult⟩ := h
  cases hmax : measured.max? with
  | some m => exact ⟨measured, m, hmeasured, hmax, hresult.trans (by rw [hmax]; rfl)⟩
  | none =>
      -- No measure belongs to no member.
      obtain rfl := List.max?_eq_none_iff.mp hmax
      cases xs with
      | nil => exact absurd rfl hxs
      | cons x rest =>
          rw [List.mapM_cons] at hmeasured
          cases hx : measure x <;> cases hrest : rest.mapM measure <;>
            rw [hx, hrest] at hmeasured <;> cases hmeasured

end

theorem search_isMaximum {f e : Expr} (hf : Comparable f) (he : Comparable e) :
    IsMaximum (count f) (nodes e) (search f e) := by
  rw [search_eq_greatest f e (isKnown_of_comparable he)]
  refine IsMaximumOrZero.isMaximum ?_ ?_
  · exact isMaximumOrZero_greatest fun x hx => answers_count hf (comparable_of_mem_nodes e he x hx)
  · obtain ⟨below, hbelow⟩ := nodes_eq_cons e
    rw [hbelow]
    exact List.cons_ne_nil e below

theorem listing_eq_cons (s : Stmt) : ∃ nested, listing s = s :: nested := by
  cases s <;> exact ⟨_, rfl⟩

theorem searchStmt_isMaximum {f s : Stmt} (hf : StmtSearchable f) (hs : StmtSearchable s) :
    IsMaximum (countStmt f) (listing s) (searchStmt f s) := by
  rw [(goesThrough_listing s hs).searched]
  refine IsMaximumOrZero.isMaximum ?_ ?_
  · exact isMaximumOrZero_greatest fun t ht =>
      answers_countStmt hf (searchable_of_mem_listing s hs t ht)
  · obtain ⟨nested, hnested⟩ := listing_eq_cons s
    rw [hnested]
    exact List.cons_ne_nil s nested

theorem searchInStmt_isMaximumOrZero {f : Expr} {s : Stmt} (hf : Comparable f)
    (hs : StmtSearchable s) :
    IsMaximumOrZero (search f) ((listing s).flatMap exprsOf) (searchInStmt f s) := by
  rw [(goesThrough_listing s hs).searchedIn]
  refine isMaximumOrZero_greatest fun e he => ?_
  obtain ⟨t, ht, het⟩ := List.mem_flatMap.mp he
  have hcomparable := comparable_exprsOf (searchable_of_mem_listing s hs t ht) e het
  obtain ⟨-, m, -, -, hm⟩ := search_isMaximum hf hcomparable
  exact ⟨m, hm⟩

/-- The search for an expression in another one is the maximum of the counts at that expression and
its strict parts, the search for a statement in another one the maximum of the counts at that
statement and those nested in it. The search for an expression in a statement is the maximum of the
searches in what belongs to these statements: targets and values, calls, concrete tests and what
loops run through. -/
theorem searches_maximal {f e : Expr} {g s : Stmt} (hf : Comparable f) (he : Comparable e)
    (hg : StmtSearchable g) (hs : StmtSearchable s) :
    (∃ parts, subExpressions e = .ok parts ∧ IsMaximum (count f) (e :: parts) (search f e)) ∧
      ∃ nested, subStatements s = .ok nested ∧
        IsMaximum (countStmt g) (s :: nested) (searchStmt g s) ∧
        IsMaximumOrZero (search f) ((s :: nested).flatMap exprsOf) (searchInStmt f s) := by
  constructor
  · obtain ⟨parts, hparts⟩ := nodes_eq_cons e
    have hlisted : subExpressions e = .ok (nodes e).tail :=
      (subExpressions_eq_survey e).trans
        (survey_of_known ((isKnown_iff e).mp (isKnown_of_comparable he)))
    have hmax := search_isMaximum hf he
    rw [hparts] at hlisted hmax
    exact ⟨parts, hlisted, hmax⟩
  · obtain ⟨nested, hnested⟩ := listing_eq_cons s
    have hlisted : subStatements s = .ok (listing s).tail :=
      congrArg (Except.map List.tail) (goesThrough_listing s hs).traversed
    have hmax := searchStmt_isMaximum hg hs
    have hmaxIn := searchInStmt_isMaximumOrZero hf hs
    rw [hnested] at hlisted hmax hmaxIn
    exact ⟨nested, hlisted, hmax, hmaxIn⟩

def sumPlusNumber : Expr :=
  .binary .add (.variable "sum" "int") (.variable "number" "int")

/-- A sum that is looked for stands below a product, beside one that matches it in part. -/
def productOfSums : Expr :=
  .binary .mult (.binary .add (.variable "sum" "int") (.literal (.int 1) "int")) sumPlusNumber

def branchThatAdds : Stmt :=
  .branch 1 (.angelic none) [.assign 2 (.variable "sum" "int") sumPlusNumber]

/-- Adds up numbers in a branch that is still open. -/
def loopThatAdds : Stmt :=
  .foreach 1 "number" "int" (.variable "numbers" "int[]") [branchThatAdds]

example :
    search sumPlusNumber productOfSums = .ok 3 ∧
      searchStmt branchThatAdds loopThatAdds = .ok 6 ∧
      searchInStmt sumPlusNumber loopThatAdds = .ok 3 := by
  decide

theorem searches_maximal_sums :
    Comparable sumPlusNumber ∧ Comparable productOfSums ∧ StmtSearchable branchThatAdds ∧
      StmtSearchable loopThatAdds ∧
      (∃ parts, subExpressions productOfSums = .ok parts ∧
        IsMaximum (count sumPlusNumber) (productOfSums :: parts)
          (search sumPlusNumber productOfSums)) ∧
      ∃ nested, subStatements loopThatAdds = .ok nested ∧
        IsMaximum (countStmt branchThatAdds) (loopThatAdds :: nested)
          (searchStmt branchThatAdds loopThatAdds) ∧
        IsMaximumOrZero (search sumPlusNumber) ((loopThatAdds :: nested).flatMap exprsOf)
          (searchInStmt sumPlusNumber loopThatAdds) := by
  have hf : Comparable sumPlusNumber := ⟨trivial, trivial⟩
  have he : Comparable productOfSums := ⟨⟨trivial, "1", rfl⟩, hf⟩
  have hg : StmtSearchable branchThatAdds := ⟨trivial, ⟨trivial, hf⟩, trivial⟩
  have hs : StmtSearchable loopThatAdds := ⟨trivial, hg, trivial⟩
  exact ⟨hf, he, hg, hs, searches_maximal hf he hg hs⟩

end FragmentSynthesis.Proofs.SearchMaxima
