import FragmentSynthesis.Proofs.ImageMeasures
import FragmentSynthesis.Proofs.PreorderNodes
import Mathlib.Algebra.GroupWithZero.Nat

/-!
Traversals of programs as sums over one list of statements. The harvest of a program lists its
statements as they nest, and what the other traversals find is found statement by statement in
that list: the expressions in the same order, the open tests, the weights.
-/

namespace FragmentSynthesis.Proofs.StatementListings

open FragmentSynthesis.Expression
open FragmentSynthesis.Faults
open FragmentSynthesis.OrderedMaps
open FragmentSynthesis.Programs
open FragmentSynthesis.Proofs.ImageMeasures
open FragmentSynthesis.Proofs.PreorderNodes
open FragmentSynthesis.Statement
open FragmentSynthesis.Traversal
open FragmentSynthesis.Weight

/-- An expression before its strict parts. -/
def withParts (e : Expr) : Except Fault (List Expr) :=
  (subExpressions e).map (e :: ·)

/-- A statement before those nested in it. -/
def withNested (s : Stmt) : Except Fault (List Stmt) :=
  (subStatements s).map (s :: ·)

/-- What a statement itself adds to the harvested expressions, its block left out. -/
def ownExpressions : Stmt → Except Fault (List Expr)
  | .assign _ _ value => withParts value
  | .call _ function => withParts function
  | _ => .ok []

/-- The test of the statement is open. -/
def hasOpenTest : Stmt → Bool
  | .branch _ test _ => test.isAngelic
  | .loop _ _ test _ => test.isAngelic
  | _ => false

/-- What the test of a statement adds to its weight. -/
def ownTestWeight : Test → Except Fault Nat
  | .concrete e => weight e
  | _ => .ok 0

/-- The weight of a statement, its block left out. -/
def ownWeight : Stmt → Except Fault Nat
  | .assign _ _ value => (weight value).map (2 + ·)
  | .call _ function => weight function
  | .branch _ test _ => (ownTestWeight test).map (1 + ·)
  | .loop _ _ test _ => (ownTestWeight test).map (1 + ·)
  | .foreach _ _ _ container _ => (weight container).map (1 + ·)
  | .foreign _ => .ok 0

theorem withParts_eq (e : Expr) : withParts e = preorder e := by
  obtain ⟨below, hbelow⟩ := nodes_eq_cons e
  rw [withParts, subExpressions_eq_survey, preorder_eq_survey, survey, survey, hbelow]
  cases firstForeign? (e :: below) <;> rfl

theorem withNested_eq (s : Stmt) : withNested s = preorderStmt s := by
  have hblock (body : List Stmt) :
      ((do let below ← preorderBlock body; return s :: below : Except Fault _).map
        List.tail).map (s :: ·) = (do let below ← preorderBlock body; return s :: below) := by
    cases preorderBlock body <;> rfl
  cases s with
  | assign indent target value => rfl
  | call indent function => rfl
  | foreign f => rfl
  | _ => exact hblock _

theorem preorderBlock_eq (body : List Stmt) :
    preorderBlock body = (body.mapM withNested).map List.flatten := by
  induction body with
  | nil => rfl
  | cons s rest ih =>
      rw [preorderBlock, ih, List.mapM_cons, withNested_eq]
      cases preorderStmt s with
      | error fault => rfl
      | ok first => cases rest.mapM withNested <;> rfl

/-- What four traversals find, by the statements that the harvest lists. -/
structure Agree (harvest : Except Fault Harvest) (listing : Except Fault (List Stmt))
    (opens weighing : Except Fault Nat) (h : Harvest) (total : Nat) : Prop where
  harvested : harvest = .ok h
  listed : listing = .ok h.statements
  expressions : (h.statements.mapM ownExpressions).map List.flatten = .ok h.expressions
  opened : opens = .ok (h.statements.countP hasOpenTest)
  weighed : weighing = .ok total
  weights : (h.statements.mapM ownWeight).map List.sum = .ok total

theorem exists_of_map_ok {α β : Type} {x : Except Fault α} {f : α → β} {b : β}
    (h : x.map f = .ok b) : ∃ a, x = .ok a ∧ f a = b := by
  cases x with
  | error fault => cases h
  | ok a => exact ⟨a, rfl, Except.ok.inj h⟩

theorem gather_append {α β : Type} {own : Stmt → Except Fault α} {join : List α → β}
    {combine : β → β → β} (hjoin : ∀ us vs, join (us ++ vs) = combine (join us) (join vs))
    {xs ys : List Stmt} {a b : β} (hxs : (xs.mapM own).map join = .ok a)
    (hys : (ys.mapM own).map join = .ok b) :
    ((xs ++ ys).mapM own).map join = .ok (combine a b) := by
  obtain ⟨us, hus, rfl⟩ := exists_of_map_ok hxs
  obtain ⟨vs, hvs, rfl⟩ := exists_of_map_ok hys
  rw [List.mapM_append, hus, hvs]
  exact congrArg Except.ok (hjoin us vs)

section

variable {harvest others : Except Fault Harvest} {listing rest : Except Fault (List Stmt)}
variable {opens opensOfRest weighing weighingOfRest : Except Fault Nat} {h k : Harvest} {m n : Nat}

theorem Agree.append (hfirst : Agree harvest listing opens weighing h m)
    (hrest : Agree others rest opensOfRest weighingOfRest k n) :
    Agree (do let a ← harvest; let b ← others; return a.append b)
      (do let a ← listing; let b ← rest; return a ++ b)
      (do let a ← opens; let b ← opensOfRest; return a + b)
      (do let a ← weighing; let b ← weighingOfRest; return a + b) (h.append k) (m + n) := by
  obtain ⟨rfl, rfl, hexpressions, rfl, rfl, hweights⟩ := hfirst
  obtain ⟨rfl, rfl, hothers, rfl, rfl, hweightsOfRest⟩ := hrest
  exact {
    harvested := rfl
    listed := rfl
    expressions := gather_append (fun _ _ => List.flatten_append) hexpressions hothers
    opened := congrArg Except.ok List.countP_append.symm
    weighed := rfl
    weights := gather_append (fun _ _ => List.sum_append_nat) hweights hweightsOfRest }

end

theorem agree_own {s : Stmt} {own : List Expr} {n : Nat} (hexpressions : ownExpressions s = .ok own)
    (hweight : ownWeight s = .ok n) :
    Agree (.ok ⟨[s], own⟩) (.ok [s]) (.ok (if hasOpenTest s then 1 else 0)) (.ok n) ⟨[s], own⟩
      n where
  harvested := rfl
  listed := rfl
  expressions := by
    rw [List.mapM_cons, hexpressions]
    exact congrArg Except.ok (List.append_nil own)
  opened := by
    rw [List.countP_cons, List.countP_nil, Nat.zero_add]
  weighed := rfl
  weights := by
    rw [List.mapM_cons, hweight]
    rfl

theorem preorder_answers {e : Expr} (he : e.isKnown = true) : Answers (preorder e) :=
  ⟨nodes e, (preorder_eq_survey e).trans (survey_of_known ((isKnown_iff e).mp he))⟩

theorem ownTestWeight_eq {test : Test} (htest : test.isKnown = true) :
    weightOfTest test = ownTestWeight test := by
  cases test with
  | unknown => cases htest
  | _ => rfl

mutual

theorem stmt_agree (s : Stmt) (hs : s.isKnown = true) :
    ∃ h n, Agree (harvestStmt s) (preorderStmt s) (openTests s) (weightOfStmt s) h n := by
  cases s with
  | assign indent target value =>
      obtain ⟨-, hvalue⟩ := Bool.and_eq_true_iff.mp hs
      obtain ⟨below, hbelow⟩ := preorder_answers hvalue
      obtain ⟨n, hn⟩ := weight_answers value hvalue
      rw [harvestStmt, weightOfStmt, hbelow, hn]
      exact ⟨_, _, agree_own ((withParts_eq value).trans hbelow) (congrArg (Except.map (2 + ·)) hn)⟩
  | call indent function =>
      obtain ⟨below, hbelow⟩ := preorder_answers hs
      obtain ⟨n, hn⟩ := weight_answers function hs
      rw [harvestStmt, weightOfStmt, hbelow, hn]
      exact ⟨_, _, agree_own ((withParts_eq function).trans hbelow) hn⟩
  | branch indent test body =>
      obtain ⟨htest, hbody⟩ := Bool.and_eq_true_iff.mp hs
      obtain ⟨h, n, hagree⟩ := block_agree body hbody
      obtain ⟨w, hw⟩ := weightOfTest_answers htest
      have hown : ownWeight (.branch indent test body) = .ok (1 + w) :=
        congrArg (Except.map (1 + ·)) ((ownTestWeight_eq htest).symm.trans hw)
      rw [weightOfStmt, hw]
      exact ⟨_, _, (agree_own rfl hown).append hagree⟩
  | loop indent head test body =>
      obtain ⟨htest, hbody⟩ := Bool.and_eq_true_iff.mp hs
      obtain ⟨h, n, hagree⟩ := block_agree body hbody
      obtain ⟨w, hw⟩ := weightOfTest_answers htest
      have hown : ownWeight (.loop indent head test body) = .ok (1 + w) :=
        congrArg (Except.map (1 + ·)) ((ownTestWeight_eq htest).symm.trans hw)
      rw [weightOfStmt, hw]
      exact ⟨_, _, (agree_own rfl hown).append hagree⟩
  | foreach indent name type container body =>
      obtain ⟨hcontainer, hbody⟩ := Bool.and_eq_true_iff.mp hs
      obtain ⟨h, n, hagree⟩ := block_agree body hbody
      obtain ⟨w, hw⟩ := weight_answers container hcontainer
      have hown : ownWeight (.foreach indent name type container body) = .ok (1 + w) :=
        congrArg (Except.map (1 + ·)) hw
      have hopens : openTests (.foreach indent name type container body) =
          (do let a ← .ok 0; let b ← openTestsInBlock body; return a + b) := by
        rw [openTests, hagree.opened]
        exact congrArg Except.ok (Nat.zero_add _).symm
      rw [weightOfStmt, hw, hopens]
      exact ⟨_, _, (agree_own rfl hown).append hagree⟩
  | foreign f => cases hs

theorem block_agree (body : List Stmt) (hbody : blockKnown body = true) :
    ∃ h n, Agree (harvestBlock body) (preorderBlock body) (openTestsInBlock body)
      (weightOfBlock body) h n := by
  cases body with
  | nil => exact ⟨⟨[], []⟩, 0, rfl, rfl, rfl, rfl, rfl, rfl⟩
  | cons s rest =>
      obtain ⟨hs, hrest⟩ := Bool.and_eq_true_iff.mp hbody
      obtain ⟨h, m, hfirst⟩ := stmt_agree s hs
      obtain ⟨k, n, hothers⟩ := block_agree rest hrest
      exact ⟨_, _, hfirst.append hothers⟩

end

/-- A harvest of a program and its weight, where the harvest lists the top-level statements, each
before those nested in it, and then the expressions of these statements in the same order and of
the result. Open tests and weights are summed over the same list. -/
structure Consistent (p : Program) (h : Harvest) (total : Nat) : Prop where
  harvested : fragments p = .ok h
  statements : (p.statements.mapM withNested).map List.flatten = .ok h.statements
  expressions :
    (do
      let own ← h.statements.mapM ownExpressions
      let ofResult ← p.result.toList.mapM withParts
      return own.flatten ++ ofResult.flatten) = .ok h.expressions
  opened : angelicCount p = .ok (h.statements.countP hasOpenTest)
  weighed : weightOfProgram p = .ok total
  weights :
    (do
      let own ← h.statements.mapM ownWeight
      let ofResult ← p.result.toList.mapM weight
      return p.scope.locals.size + own.sum + ofResult.sum) = .ok total

theorem fragments_eq (p : Program) :
    fragments p = do
      let body ← harvestBlock p.statements
      let ofResult ← p.result.toList.mapM withParts
      return body.append ⟨[], ofResult.flatten⟩ := by
  rw [fragments]
  cases harvestBlock p.statements with
  | error fault => rfl
  | ok body =>
      cases p.result with
      | none =>
          have hnothing : body = body.append ⟨[], []⟩ := by
            rw [Harvest.append, List.append_nil, List.append_nil]
          exact congrArg Except.ok hnothing
      | some e =>
          simp only [Option.toList_some, List.mapM_cons, withParts_eq]
          cases preorder e with
          | error fault => rfl
          | ok below =>
              have hbelow : below = [below].flatten := (List.append_nil below).symm
              exact congrArg (fun es => Except.ok (body.append ⟨[], es⟩)) hbelow

section

variable {p : Program}

theorem weightOfProgram_eq (hp : p.isKnown = true) :
    weightOfProgram p = do
      let body ← weightOfBlock p.statements
      let ofResult ← p.result.toList.mapM weight
      return p.scope.locals.size + body + ofResult.sum := by
  obtain ⟨hbody, hresult⟩ := Bool.and_eq_true_iff.mp hp
  rw [weightOfProgram, weightOfTop_eq hbody]
  cases weightOfBlock p.statements with
  | error fault => rfl
  | ok body =>
      cases h : p.result with
      | none => rfl
      | some e =>
          rw [h] at hresult
          simp only [weightOfResult_eq hresult]
          rw [Option.toList_some, List.mapM_cons]
          cases weight e <;> rfl

/-- What can be found of every known expression can be found of the result. -/
theorem result_answers {α : Type} {own : Expr → Except Fault α}
    (hown : ∀ e, e.isKnown = true → Answers (own e)) (hp : p.isKnown = true) :
    Answers (p.result.toList.mapM own) := by
  obtain ⟨-, hresult⟩ := Bool.and_eq_true_iff.mp hp
  cases h : p.result with
  | none => exact ⟨[], rfl⟩
  | some e =>
      rw [h] at hresult
      obtain ⟨a, ha⟩ := hown e hresult
      rw [Option.toList_some, List.mapM_cons, ha]
      exact ⟨[a], rfl⟩

/-- Every known program has a harvest with which all its traversals agree. -/
theorem exists_consistent (hp : p.isKnown = true) : ∃ h total, Consistent p h total := by
  obtain ⟨h, n, hagree⟩ := block_agree p.statements (Bool.and_eq_true_iff.mp hp).1
  obtain ⟨own, hown, hexpressions⟩ := exists_of_map_ok hagree.expressions
  obtain ⟨weights, hweights, rfl⟩ := exists_of_map_ok hagree.weights
  obtain ⟨parts, hparts⟩ :=
    result_answers (fun e he => withParts_eq e ▸ preorder_answers he) hp
  obtain ⟨resultWeights, hresult⟩ := result_answers weight_answers hp
  -- The result adds no statement.
  have hstatements : (h.append ⟨[], parts.flatten⟩).statements = h.statements :=
    List.append_nil _
  refine ⟨h.append ⟨[], parts.flatten⟩, p.scope.locals.size + weights.sum + resultWeights.sum, ?_⟩
  exact {
    harvested := by
      rw [fragments_eq, hagree.harvested, hparts]
      rfl
    statements := by
      rw [hstatements, ← preorderBlock_eq]
      exact hagree.listed
    expressions := by
      rw [hstatements, hown, hparts]
      exact congrArg (fun es => Except.ok (es ++ parts.flatten)) hexpressions
    opened := by
      rw [hstatements]
      exact hagree.opened
    weighed := by
      rw [weightOfProgram_eq hp, hagree.weighed, hresult]
      rfl
    weights := by
      rw [hstatements, hweights, hresult]
      rfl }

end

/-- A loop through numbers that adds those for which a test holds, which is still open. -/
def sumMatching : Program :=
  { Program.new "sumMatching" "int" (OrderedMap.ofList [("numbers", "int[]")]) with
    statements := [.foreach 1 "number" "int" (.variable "numbers" "int[]")
      [.branch 2 (.angelic none)
        [.assign 3 (.variable "sum" "int")
          (.binary .add (.variable "sum" "int") (.variable "number" "int"))]]]
    result := some (.variable "sum" "int") }

theorem exists_consistent_sumMatching :
    sumMatching.isKnown = true ∧ ∃ h, Consistent sumMatching h 9 ∧ h.statements.length = 3 := by
  refine ⟨rfl, ?_⟩
  obtain ⟨h, total, hconsistent⟩ := exists_consistent (p := sumMatching) rfl
  have htotal : 9 = total := Except.ok.inj hconsistent.weighed
  have hlength : 3 = h.statements.length :=
    congrArg (fun h : Harvest => h.statements.length) (Except.ok.inj hconsistent.harvested)
  exact ⟨h, htotal ▸ hconsistent, hlength.symm⟩

end FragmentSynthesis.Proofs.StatementListings
