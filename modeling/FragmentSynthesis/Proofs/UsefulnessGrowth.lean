import FragmentSynthesis.Proofs.GrownTrees
import FragmentSynthesis.Proofs.LargestCounts
import FragmentSynthesis.Proofs.OrderedQuotients
import Mathlib.Logic.Relation

namespace FragmentSynthesis.Proofs.UsefulnessGrowth

open FragmentSynthesis.Binary64
open FragmentSynthesis.Expression
open FragmentSynthesis.Faults
open FragmentSynthesis.Matching
open FragmentSynthesis.OrderedMaps
open FragmentSynthesis.Programs
open FragmentSynthesis.Proofs.GrownTrees
open FragmentSynthesis.Proofs.LargestCounts
open FragmentSynthesis.Proofs.MatchCounts
open FragmentSynthesis.Proofs.OrderedQuotients
open FragmentSynthesis.Proofs.Quotients
open FragmentSynthesis.Statement
open FragmentSynthesis.Weight

mutual

/-- One step in a statement: an open test gets an expression, or the block grows. -/
inductive GrowsStmt : Stmt → Stmt → Prop
  | branchTest (indent : Int) (remembered : Option Expr) (e : Expr) (body : List Stmt) :
      GrowsStmt (.branch indent (.angelic remembered) body) (.branch indent (.concrete e) body)
  | loopTest (indent : Int) (head : LoopHead) (remembered : Option Expr) (e : Expr)
      (body : List Stmt) :
      GrowsStmt (.loop indent head (.angelic remembered) body) (.loop indent head (.concrete e) body)
  | branchBody (indent : Int) (test : Test) {body body' : List Stmt} (h : GrowsBlock body body') :
      GrowsStmt (.branch indent test body) (.branch indent test body')
  | loopBody (indent : Int) (head : LoopHead) (test : Test) {body body' : List Stmt}
      (h : GrowsBlock body body') :
      GrowsStmt (.loop indent head test body) (.loop indent head test body')
  | foreachBody (indent : Int) (name type : String) (container : Expr) {body body' : List Stmt}
      (h : GrowsBlock body body') :
      GrowsStmt (.foreach indent name type container body)
        (.foreach indent name type container body')

/-- One step in a block: a statement is appended, or there is a step in one of the statements. -/
inductive GrowsBlock : List Stmt → List Stmt → Prop
  | append (body : List Stmt) (s : Stmt) : GrowsBlock body (body ++ [s])
  | within (front back : List Stmt) {s t : Stmt} (h : GrowsStmt s t) :
      GrowsBlock (front ++ s :: back) (front ++ t :: back)

end

/-- One step of a program. A result is given only to a program without one. -/
inductive Grows (p : Program) : Program → Prop
  | body {body : List Stmt} (h : GrowsBlock p.statements body) :
      Grows p { p with statements := body }
  | result (h : p.result = none) (e : Expr) : Grows p (p.setResult (some e))

mutual

theorem GrowsStmt.extends : {s t : Stmt} → GrowsStmt s t → Extends s t
  | _, _, .branchTest indent remembered e body =>
      .branch indent (.closed remembered e) (blockExtends_refl body)
  | _, _, .loopTest indent head remembered e body =>
      .loop indent head (.closed remembered e) (blockExtends_refl body)
  | _, _, .branchBody indent test h => .branch indent (.same test) h.extends
  | _, _, .loopBody indent head test h => .loop indent head (.same test) h.extends
  | _, _, .foreachBody indent name type container h =>
      .foreach indent name type container h.extends

theorem GrowsBlock.extends : {body body' : List Stmt} → GrowsBlock body body' →
    BlockExtends body body'
  | _, _, .append body s => blockExtends_append body [s]
  | _, _, .within front back h => blockExtends_within h.extends front back

end

variable {f : Node} {p q : Program}

theorem Grows.extends (h : Grows p q) : ProgramExtends p q := by
  cases h with
  | body h => exact ⟨h.extends, fun _ he => he⟩
  | result h e =>
      refine ⟨blockExtends_refl p.statements, ?_⟩
      intro e' he'
      rw [h] at he'
      cases he'

theorem searchable_of_run (h : Relation.ReflTransGen Grows p q) (hq : ProgramSearchable q) :
    ProgramSearchable p := by
  induction h using Relation.ReflTransGen.head_induction_on with
  | refl => exact hq
  | head hstep _ ih => exact hstep.extends.searchable ih

theorem bestMatch_noMore_of_run (hf : NodeSearchable f) (hq : ProgramSearchable q)
    (h : Relation.ReflTransGen Grows p q) : NoMore (bestMatch f p) (bestMatch f q) := by
  induction h using Relation.ReflTransGen.head_induction_on with
  | refl => exact bestMatch_noMore hf (.refl q) hq
  | head hstep hrun ih =>
      exact (bestMatch_noMore hf hstep.extends (searchable_of_run hrun hq)).trans ih

/-- While a program grows, the best match of a fragment does not fall. Neither does its usefulness,
as long as a double holds the weight and the best match. -/
theorem usefulness_grows (f : Node) (p q : Program) (hf : NodeSearchable f)
    (hq : ProgramSearchable q) (h : Relation.ReflTransGen Grows p q) :
    ∃ best best' weight, bestMatch f p = .ok best ∧ bestMatch f q = .ok best' ∧ best ≤ best' ∧
      weightOfNode f = .ok weight ∧
      ∀ divisor dividend, ofInt? weight = some divisor → ofInt? best' = some dividend →
        ∃ score score', usefulness f p = .ok score ∧ usefulness f q = .ok score' ∧
          NoGreater score score' := by
  obtain ⟨best, best', hbest, hbest', hle⟩ := bestMatch_noMore_of_run hf hq h
  have hweight := weightOfNode_of_searchable hf
  refine ⟨best, best', sizeOfNode f, hbest, hbest', hle, hweight, ?_⟩
  intro divisor dividend hdivisor hdividend
  refine ⟨_, _, usefulness_eq hbest hweight, usefulness_eq hbest' hweight, ?_⟩
  exact div_ofInt_mono (sizeOfNode_pos_of_searchable hf) hle hdivisor hdividend

/-- Follows the largest element as far as its branch goes. -/
def followsLargest (test : Test) (body : List Stmt) (result : Option Expr) : Program :=
  { Program.new "largest" "int" (OrderedMap.ofList [("xs", "int[]")]) with
    statements := [.foreach 1 "x" "int" (.variable "xs" "int[]") [.branch 2 test body]]
    result := result }

theorem usefulness_grows_followsLargest :
    let n := Expr.variable "n" "int"
    let x := Expr.variable "x" "int"
    let f := Node.stmt (.branch 1 (.concrete (.binary .lt n x)) [.assign 2 n x])
    let p := followsLargest (.angelic none) [] none
    let q := followsLargest (.concrete (.binary .lt n x)) [.assign 3 n x] (some n)
    (NodeSearchable f ∧ ProgramSearchable q ∧ Relation.ReflTransGen Grows p q) ∧
      (bestMatch f p = .ok 1 ∧ bestMatch f q = .ok 7 ∧ weightOfNode f = .ok 7) ∧
      ∃ score, usefulness f p = .ok score ∧ usefulness f q = .ok one ∧ NoGreater score one := by
  intro n x f p q
  have hf : NodeSearchable f := ⟨⟨trivial, trivial⟩, ⟨trivial, trivial⟩, trivial⟩
  have hq : ProgramSearchable q := by
    refine ⟨⟨⟨trivial, ⟨⟨trivial, trivial⟩, ⟨trivial, trivial⟩, trivial⟩, trivial⟩, trivial⟩, ?_⟩
    rintro e ⟨⟩
    exact trivial
  have happended : Grows p (followsLargest (.angelic none) [.assign 3 n x] none) :=
    .body (.within [] [] (.foreachBody 1 "x" "int" _
      (.within [] [] (.branchBody 2 _ (.append [] (.assign 3 n x))))))
  have hclosed : Grows (followsLargest (.angelic none) [.assign 3 n x] none)
      (followsLargest (.concrete (.binary .lt n x)) [.assign 3 n x] none) :=
    .body (.within [] [] (.foreachBody 1 "x" "int" _ (.within [] [] (.branchTest 2 none _ _))))
  have hresult : Grows (followsLargest (.concrete (.binary .lt n x)) [.assign 3 n x] none) q :=
    .result rfl n
  have hrun : Relation.ReflTransGen Grows p q :=
    .head happended (.head hclosed (.single hresult))
  have hbest : bestMatch f q = .ok 7 := rfl
  have hweight : weightOfNode f = .ok 7 := rfl
  obtain ⟨_, best', weight, -, hbest', -, hweight', hscores⟩ := usefulness_grows f p q hf hq hrun
  obtain rfl : best' = 7 := Except.ok.inj (hbest'.symm.trans hbest)
  obtain rfl : weight = 7 := Except.ok.inj (hweight'.symm.trans hweight)
  obtain ⟨seven, hseven⟩ := exists_ofInt? (show 0 < 7 by decide) (by decide)
  obtain ⟨score, score', hscore, hscore', hle⟩ := hscores seven seven hseven hseven
  have hone : usefulness f q = .ok one := by decide +kernel
  obtain rfl : score' = one := Except.ok.inj (hscore'.symm.trans hone)
  exact ⟨⟨hf, hq, hrun⟩, ⟨rfl, hbest, hweight⟩, score, hscore, hone, hle⟩

end FragmentSynthesis.Proofs.UsefulnessGrowth
