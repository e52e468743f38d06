import FragmentSynthesis.Proofs.LargestCounts

namespace FragmentSynthesis.Proofs.SymmetricCounts

open FragmentSynthesis.Binary64
open FragmentSynthesis.Expression
open FragmentSynthesis.Faults
open FragmentSynthesis.Matching
open FragmentSynthesis.OrderedMaps
open FragmentSynthesis.Programs
open FragmentSynthesis.Proofs.FullMatches
open FragmentSynthesis.Proofs.LargestCounts
open FragmentSynthesis.Proofs.MatchCounts
open FragmentSynthesis.Proofs.Quotients
open FragmentSynthesis.Statement
open FragmentSynthesis.Weight

theorem countMismatch_comm (kind otherKind : String) :
    countMismatch kind otherKind = countMismatch otherKind kind := by
  unfold countMismatch
  by_cases h : kind = otherKind
  · rw [h]
  · rw [if_neg h, if_neg (Ne.symm h)]

mutual

theorem count_comm (a b : Expr) (ha : Comparable a) (hb : Comparable b) :
    count a b = count b a := by
  cases a with
  | literal v type =>
      cases b with
      | literal w otherType =>
          obtain ⟨text, htext⟩ := ha
          obtain ⟨other, hother⟩ := hb
          rw [count, count, countLiterals_eq htext hother, countLiterals_eq hother htext]
          exact congrArg Except.ok (if_congr eq_comm rfl rfl)
      | use component receiver args => cases receiver <;> exact countMismatch_comm _ _
      | _ => exact countMismatch_comm _ _
  | «variable» name type =>
      cases b with
      | «variable» other otherType =>
          rw [count, count]
          exact congrArg Except.ok (if_congr eq_comm rfl rfl)
      | use component receiver args => cases receiver <;> exact countMismatch_comm _ _
      | _ => exact countMismatch_comm _ _
  | unary op operand =>
      cases b with
      | unary other operand' =>
          rw [count, count, count_comm operand operand' ha hb]
          exact if_congr eq_comm rfl rfl
      | binary other left' right' => rfl
      | use component receiver args => cases receiver <;> exact countMismatch_comm _ _
      | _ => exact countMismatch_comm _ _
  | binary op left right =>
      cases b with
      | unary other operand' => rfl
      | binary other left' right' =>
          rw [count, count, count_comm left left' ha.1 hb.1, count_comm right right' ha.2 hb.2]
          exact if_congr eq_comm rfl rfl
      | use component receiver args => cases receiver <;> exact countMismatch_comm _ _
      | _ => exact countMismatch_comm _ _
  | use component receiver args =>
      cases b with
      | use other receiver' args' =>
          cases receiver with
          | none =>
              cases receiver' with
              | none =>
                  rw [count, count, countEach_comm args args' ha hb]
                  exact if_congr eq_comm rfl rfl
              | some receiver' =>
                  rw [count, count, countEach_comm args args' ha hb.2]
                  exact if_congr eq_comm rfl rfl
          | some receiver =>
              cases receiver' with
              | none =>
                  rw [count, count, countEach_comm args args' ha.2 hb]
                  exact if_congr eq_comm rfl rfl
              | some receiver' =>
                  rw [count, count, count_comm receiver receiver' ha.1 hb.1,
                    countEach_comm args args' ha.2 hb.2]
                  exact if_congr eq_comm rfl rfl
      | _ => cases receiver <;> exact countMismatch_comm _ _
  | foreign g => exact ha.elim

theorem countEach_comm (args args' : List Expr) (hargs : EachComparable args)
    (hargs' : EachComparable args') : countEach args args' = countEach args' args := by
  cases args with
  | nil => cases args' <;> rfl
  | cons e rest =>
      cases args' with
      | nil => rfl
      | cons e' rest' =>
          rw [countEach, countEach, count_comm e e' hargs.1 hargs'.1,
            countEach_comm rest rest' hargs.2 hargs'.2]

end

theorem countTests_comm (test test' : Test) (htest : TestComparable test)
    (htest' : TestComparable test') : countTests test test' = countTests test' test := by
  cases test with
  | concrete e =>
      cases test' with
      | concrete e' => exact count_comm e e' htest htest'
      | angelic remembered => rfl
      | blank => exact htest'.elim
      | unknown => exact htest'.elim
  | angelic remembered =>
      cases test' with
      | concrete e' => rfl
      | angelic remembered' => rfl
      | blank => exact htest'.elim
      | unknown => exact htest'.elim
  | blank => exact htest.elim
  | unknown => exact htest.elim

mutual

theorem countStmt_comm (s t : Stmt) (hs : StmtComparable s) (ht : StmtComparable t) :
    countStmt s t = countStmt t s := by
  cases s with
  | assign indent target value =>
      cases t with
      | assign indent' target' value' =>
          have htargets := count_comm target target' (comparable_of_isVariable hs.1)
            (comparable_of_isVariable ht.1)
          rw [countStmt, countStmt, htargets, count_comm value value' hs.2 ht.2]
      | _ => exact countMismatch_comm _ _
  | call indent function =>
      cases t with
      | call indent' function' => exact count_comm function function' hs ht
      | _ => exact countMismatch_comm _ _
  | branch indent test body =>
      cases t with
      | branch indent' test' body' =>
          rw [countStmt, countStmt, countTests_comm test test' hs.1 ht.1,
            countBlock_comm body body' hs.2 ht.2]
      | _ => exact countMismatch_comm _ _
  | loop indent head test body =>
      cases t with
      | loop indent' head' test' body' =>
          rw [countStmt, countStmt, countTests_comm test test' hs.1 ht.1,
            countBlock_comm body body' hs.2 ht.2]
      | _ => exact countMismatch_comm _ _
  | foreach indent name type container body =>
      cases t with
      | foreach indent' name' type' container' body' =>
          rw [countStmt, countStmt, count_comm container container' hs.1 ht.1,
            countBlock_comm body body' hs.2 ht.2]
      | _ => exact countMismatch_comm _ _
  | foreign g => exact hs.elim

theorem countBlock_comm (body body' : List Stmt) (hbody : BlockComparable body)
    (hbody' : BlockComparable body') : countBlock body body' = countBlock body' body := by
  cases body with
  | nil => cases body' <;> rfl
  | cons s rest =>
      cases body' with
      | nil => rfl
      | cons s' rest' =>
          rw [countBlock, countBlock, countStmt_comm s s' hbody.1 hbody'.1,
            countBlock_comm rest rest' hbody.2 hbody'.2]

end

theorem countNode_comm {a b : Node} (ha : NodeComparable a) (hb : NodeComparable b) :
    countNode a b = countNode b a := by
  cases a with
  | expr e =>
      cases b with
      | expr e' => exact count_comm e e' ha hb
      | _ => rfl
  | stmt s =>
      cases b with
      | stmt s' => exact countStmt_comm s s' ha hb
      | _ => rfl
  | text _ => exact ha.elim
  | absent => exact ha.elim

/-- Two nodes count the same either way, no more than either weighs, and a node by itself counts
its weight, which is positive. So no score divides by zero, and all lie between zero and one. -/
theorem counts_symmetric_bounded (a b : Node) (p : Program) (ha : NodeComparable a)
    (hb : NodeComparable b) (hp : ProgramComparable p) :
    ∃ n weight otherWeight best,
      countNode a b = .ok n ∧ countNode b a = .ok n ∧
      weightOfNode a = .ok weight ∧ weightOfNode b = .ok otherWeight ∧
      n ≤ min weight otherWeight ∧ countNode a a = .ok weight ∧ 1 ≤ weight ∧
      bestMatch a p = .ok best ∧ best ≤ weight ∧
      ∀ divisor, ofInt? weight = some divisor → ¬ IsZero divisor ∧
        ∃ score, usefulness a p = .ok score ∧ InUnitInterval score := by
  have hpos := sizeOfNode_pos ha
  obtain ⟨n, hn, hle⟩ := countNode_atMost ha hb
  have hn' : countNode b a = .ok n := (countNode_comm hb ha).trans hn
  have hle' : n ≤ sizeOfNode b := by
    obtain ⟨m, hm, hmle⟩ := countNode_atMost hb ha
    rwa [Except.ok.inj (hn'.symm.trans hm)]
  obtain ⟨best, hbest, hbestle⟩ := bestMatch_atMost ha hp
  refine ⟨n, sizeOfNode a, sizeOfNode b, best, hn, hn', weightOfNode_eq ha, weightOfNode_eq hb,
    Nat.le_min.mpr ⟨hle, hle'⟩, countNode_self ha, hpos, hbest, hbestle, ?_⟩
  intro divisor hdivisor
  exact ⟨not_isZero hpos hdivisor, _, usefulness_eq hbest (weightOfNode_eq ha),
    div_ofInt_inUnitInterval hpos hbestle hdivisor⟩

def closedBranch : Stmt :=
  let n := Expr.variable "n" "int"
  let x := Expr.variable "x" "int"
  .branch 1 (.concrete (.binary .lt n x)) [.assign 2 n x]

/-- A branch whose test is open, with one assignment more. -/
def openBranch : Stmt :=
  let x := Expr.variable "x" "int"
  .branch 1 (.angelic none)
    [.assign 2 (.variable "n" "int") x, .assign 2 (.variable "k" "int") x]

/-- Has an open branch with a longer block. -/
def branching : Program :=
  { Program.new "branching" "void" (OrderedMap.ofList [("x", "int")]) with
    statements := [openBranch] }

theorem counts_symmetric_bounded_branches :
    NodeComparable (.stmt closedBranch) ∧ NodeComparable (.stmt openBranch) ∧
      ProgramComparable branching ∧
      ∃ n weight otherWeight best,
        countNode (.stmt closedBranch) (.stmt openBranch) = .ok n ∧
        countNode (.stmt openBranch) (.stmt closedBranch) = .ok n ∧
        weightOfNode (.stmt closedBranch) = .ok weight ∧
        weightOfNode (.stmt openBranch) = .ok otherWeight ∧
        n ≤ min weight otherWeight ∧
        countNode (.stmt closedBranch) (.stmt closedBranch) = .ok weight ∧ 1 ≤ weight ∧
        bestMatch (.stmt closedBranch) branching = .ok best ∧ best ≤ weight ∧
        ∀ divisor, ofInt? weight = some divisor → ¬ IsZero divisor ∧
          ∃ score, usefulness (.stmt closedBranch) branching = .ok score ∧
            InUnitInterval score := by
  have ha : NodeComparable (.stmt closedBranch) := ⟨⟨trivial, trivial⟩, ⟨trivial, trivial⟩, trivial⟩
  have hb : NodeComparable (.stmt openBranch) :=
    ⟨trivial, ⟨trivial, trivial⟩, ⟨trivial, trivial⟩, trivial⟩
  have hp : ProgramComparable branching := ⟨⟨hb, trivial⟩, nofun⟩
  exact ⟨ha, hb, hp, counts_symmetric_bounded _ _ _ ha hb hp⟩

end FragmentSynthesis.Proofs.SymmetricCounts
