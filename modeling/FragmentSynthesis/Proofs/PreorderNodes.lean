import FragmentSynthesis.Proofs.MatchCounts

/-!
Analyses of expressions as scans of their nodes in pre-order. Weights, strict parts and used names
take every node into account, so each of these analyses ends at the first node that it does not
know. Looking for a variable stops at the first one, and so it depends on the order whether there
is an answer.
-/

namespace FragmentSynthesis.Proofs.PreorderNodes

open FragmentSynthesis.Components
open FragmentSynthesis.Expression
open FragmentSynthesis.Faults
open FragmentSynthesis.Proofs.MatchCounts
open FragmentSynthesis.Traversal
open FragmentSynthesis.UsedNames
open FragmentSynthesis.Weight

mutual

/-- All nodes of an expression, foreign ones too: a receiver before the arguments, and a left
operand before the right one. -/
def nodes : Expr → List Expr
  | .literal value type => [.literal value type]
  | .variable name type => [.variable name type]
  | .unary op operand => .unary op operand :: nodes operand
  | .binary op left right => .binary op left right :: (nodes left ++ nodes right)
  | .use component none args => .use component none args :: nodesOfEach args
  | .use component (some receiver) args =>
      .use component (some receiver) args :: (nodes receiver ++ nodesOfEach args)
  | .foreign f => [.foreign f]

def nodesOfEach : List Expr → List Expr
  | [] => []
  | e :: rest => nodes e ++ nodesOfEach rest

end

theorem nodes_eq_cons (e : Expr) : ∃ below, nodes e = e :: below := by
  cases e with
  | use component receiver args => cases receiver <;> exact ⟨_, rfl⟩
  | _ => exact ⟨_, rfl⟩

/-- The expression is foreign. -/
def IsForeign : Expr → Prop
  | .foreign _ => True
  | _ => False

def foreign? : Expr → Option Foreign
  | .foreign f => some f
  | _ => none

/-- The first foreign node of a list. -/
def firstForeign? (xs : List Expr) : Option Foreign :=
  xs.findSome? foreign?

/-- The name of an expression that is a variable. -/
def variableName? : Expr → Option String
  | .variable name _ => some name
  | _ => none

theorem mem_variableNames_iff (xs : List Expr) (name : String) :
    name ∈ xs.filterMap variableName? ↔ ∃ type, Expr.variable name type ∈ xs := by
  rw [List.mem_filterMap]
  constructor
  · rintro ⟨e, he, hname⟩
    cases e with
    | «variable» other type =>
        obtain rfl : other = name := Option.some.inj hname
        exact ⟨type, he⟩
    | _ => cases hname
  · rintro ⟨type, he⟩
    exact ⟨_, he, rfl⟩

theorem firstForeign?_cons (x : Expr) (xs : List Expr) :
    firstForeign? (x :: xs) = (foreign? x).or (firstForeign? xs) := by
  rw [firstForeign?, List.findSome?_cons]
  cases foreign? x <;> rfl

theorem firstForeign?_eq_none_iff (xs : List Expr) :
    firstForeign? xs = none ↔ ∀ x ∈ xs, ¬ IsForeign x := by
  rw [firstForeign?, List.findSome?_eq_none_iff]
  refine forall₂_congr fun x _ => ?_
  cases x <;> simp [foreign?, IsForeign]

theorem firstForeign?_eq_some_iff (xs : List Expr) :
    (∃ f, firstForeign? xs = some f) ↔ ∃ x ∈ xs, IsForeign x := by
  rw [← Option.ne_none_iff_exists', ne_eq, firstForeign?_eq_none_iff]
  simp only [Classical.not_forall, Classical.not_not, exists_prop]

mutual

theorem isKnown_iff (e : Expr) : e.isKnown = true ↔ ∀ x ∈ nodes e, ¬ IsForeign x := by
  cases e with
  | literal value type => simp [nodes, IsForeign, Expr.isKnown]
  | «variable» name type => simp [nodes, IsForeign, Expr.isKnown]
  | unary op operand => simp [nodes, IsForeign, Expr.isKnown, isKnown_iff operand]
  | binary op left right =>
      simp [nodes, IsForeign, Expr.isKnown, isKnown_iff left, isKnown_iff right, or_imp, forall_and]
  | use component receiver args =>
      cases receiver with
      | none => simp [nodes, IsForeign, Expr.isKnown, argsKnown_iff args]
      | some receiver =>
          simp [nodes, IsForeign, Expr.isKnown, isKnown_iff receiver, argsKnown_iff args, or_imp,
            forall_and]
  | foreign f => simp [nodes, IsForeign, Expr.isKnown]

theorem argsKnown_iff (args : List Expr) :
    argsKnown args = true ↔ ∀ x ∈ nodesOfEach args, ¬ IsForeign x := by
  cases args with
  | nil => simp [nodesOfEach, argsKnown]
  | cons e rest =>
      simp [nodesOfEach, argsKnown, isKnown_iff e, argsKnown_iff rest, or_imp, forall_and]

end

/-- What an analysis finds in a list of nodes, unless it meets one that it does not know. -/
def survey {α : Type} (analysis : Analysis) (find : List Expr → α) (xs : List Expr) :
    Except Fault α :=
  match firstForeign? xs with
  | none => .ok (find xs)
  | some f => unknown f.kindName analysis

section

variable {α : Type} {analysis : Analysis} {find found : List Expr → α} {x : Expr}
variable {xs ys : List Expr}

theorem survey_append {combine : α → α → α} (h : find (xs ++ ys) = combine (found xs) (found ys)) :
    survey analysis find (xs ++ ys) = do
      let first ← survey analysis found xs
      let others ← survey analysis found ys
      return combine first others := by
  simp only [survey, firstForeign?, List.findSome?_append]
  cases xs.findSome? foreign? with
  | some f => rfl
  | none =>
      cases ys.findSome? foreign? with
      | some f => rfl
      | none => exact congrArg Except.ok h

theorem survey_cons (hx : foreign? x = none) :
    survey analysis find (x :: xs) = survey analysis (fun below => find (x :: below)) xs := by
  rw [survey, firstForeign?_cons, hx, Option.none_or, survey]

theorem survey_cons_map {extend : α → α} (hx : foreign? x = none)
    (h : find (x :: xs) = extend (find xs)) :
    survey analysis find (x :: xs) = do
      let below ← survey analysis find xs
      return extend below := by
  rw [survey_cons hx, survey, survey]
  cases firstForeign? xs with
  | some f => rfl
  | none => exact congrArg Except.ok h

theorem survey_cons_append {combine : α → α → α} (hx : foreign? x = none)
    (h : find (x :: (xs ++ ys)) = combine (find xs) (find ys)) :
    survey analysis find (x :: (xs ++ ys)) = do
      let first ← survey analysis find xs
      let others ← survey analysis find ys
      return combine first others :=
  (survey_cons hx).trans (survey_append h)

end

mutual

theorem preorder_eq_survey (e : Expr) : preorder e = survey .subExpressions id (nodes e) := by
  cases e with
  | literal value type => rfl
  | «variable» name type => rfl
  | unary op operand =>
      rw [preorder, preorder_eq_survey operand]
      exact Eq.symm (survey_cons_map rfl rfl)
  | binary op left right =>
      rw [preorder, preorder_eq_survey left, preorder_eq_survey right]
      exact Eq.symm (survey_cons_append rfl rfl)
  | use component receiver args =>
      cases receiver with
      | none =>
          rw [preorder, preorderEach_eq_survey args]
          exact Eq.symm (survey_cons_map rfl rfl)
      | some receiver =>
          rw [preorder, preorder_eq_survey receiver, preorderEach_eq_survey args]
          exact Eq.symm (survey_cons_append rfl rfl)
  | foreign f => rfl

theorem preorderEach_eq_survey (args : List Expr) :
    preorderEach args = survey .subExpressions id (nodesOfEach args) := by
  cases args with
  | nil => rfl
  | cons e rest =>
      rw [preorderEach, preorder_eq_survey e, preorderEach_eq_survey rest]
      exact Eq.symm (survey_append rfl)

end

theorem length_cons_append (x : Expr) (xs ys : List Expr) :
    (x :: (xs ++ ys)).length = 1 + xs.length + ys.length := by
  rw [List.length_cons, List.length_append]
  omega

mutual

theorem weight_eq_survey (e : Expr) : weight e = survey .size List.length (nodes e) := by
  cases e with
  | literal value type => rfl
  | «variable» name type => rfl
  | unary op operand =>
      rw [weight, weight_eq_survey operand]
      exact Eq.symm (survey_cons_map rfl (Nat.add_comm _ 1))
  | binary op left right =>
      rw [weight, weight_eq_survey left, weight_eq_survey right]
      exact Eq.symm (survey_cons_append rfl (length_cons_append _ _ _))
  | use component receiver args =>
      cases receiver with
      | none =>
          rw [weight, weightEach_eq_survey args]
          exact Eq.symm (survey_cons_map rfl (Nat.add_comm _ 1))
      | some receiver =>
          rw [weight, weight_eq_survey receiver, weightEach_eq_survey args]
          exact Eq.symm (survey_cons_append rfl (length_cons_append _ _ _))
  | foreign f => rfl

theorem weightEach_eq_survey (args : List Expr) :
    weightEach args = survey .size List.length (nodesOfEach args) := by
  cases args with
  | nil => rfl
  | cons e rest =>
      rw [weightEach, weight_eq_survey e, weightEach_eq_survey rest]
      exact Eq.symm (survey_append List.length_append)

end

mutual

theorem usedNames_eq_survey (e : Expr) :
    usedNames e = survey .usedVars (List.filterMap variableName?) (nodes e) := by
  cases e with
  | literal value type => rfl
  | «variable» name type => rfl
  | unary op operand =>
      rw [usedNames, usedNames_eq_survey operand]
      exact Eq.symm (survey_cons rfl)
  | binary op left right =>
      rw [usedNames, usedNames_eq_survey left, usedNames_eq_survey right]
      exact Eq.symm (survey_cons_append rfl List.filterMap_append)
  | use component receiver args =>
      cases receiver with
      | none =>
          rw [usedNames, usedNamesEach_eq_survey args]
          exact Eq.symm (survey_cons rfl)
      | some receiver =>
          rw [usedNames, usedNames_eq_survey receiver, usedNamesEach_eq_survey args]
          exact Eq.symm (survey_cons_append rfl List.filterMap_append)
  | foreign f => rfl

theorem usedNamesEach_eq_survey (args : List Expr) :
    usedNamesEach args = survey .usedVars (List.filterMap variableName?) (nodesOfEach args) := by
  cases args with
  | nil => rfl
  | cons e rest =>
      rw [usedNamesEach, usedNames_eq_survey e, usedNamesEach_eq_survey rest]
      exact Eq.symm (survey_append List.filterMap_append)

end

/-- Looks through nodes for a variable and no further than the first node that is one or that is
not known. -/
def seek : List Expr → Except Fault Bool
  | [] => .ok false
  | .variable _ _ :: _ => .ok true
  | .foreign f :: _ => unknown f.kindName .containsVar
  | _ :: rest => seek rest

theorem seek_append (xs ys : List Expr) :
    seek (xs ++ ys) = (do
      if ← seek xs then return true
      seek ys) := by
  induction xs with
  | nil => rfl
  | cons x rest ih =>
      cases x with
      | «variable» name type => rfl
      | foreign f => rfl
      | _ => exact ih

mutual

theorem containsVariable_eq_seek (e : Expr) : containsVariable e = seek (nodes e) := by
  cases e with
  | literal value type => rfl
  | «variable» name type => rfl
  | unary op operand => exact containsVariable_eq_seek operand
  | binary op left right =>
      rw [containsVariable, containsVariable_eq_seek left, containsVariable_eq_seek right]
      exact (seek_append (nodes left) (nodes right)).symm
  | use component receiver args =>
      cases receiver with
      | none => exact anyContainsVariable_eq_seek args
      | some receiver =>
          rw [containsVariable, containsVariable_eq_seek receiver,
            anyContainsVariable_eq_seek args]
          exact (seek_append (nodes receiver) (nodesOfEach args)).symm
  | foreign f => rfl

theorem anyContainsVariable_eq_seek (args : List Expr) :
    anyContainsVariable args = seek (nodesOfEach args) := by
  cases args with
  | nil => rfl
  | cons e rest =>
      rw [anyContainsVariable, containsVariable_eq_seek e, anyContainsVariable_eq_seek rest]
      exact (seek_append (nodes e) (nodesOfEach rest)).symm

end

/-- A node with the first property comes before every node with the second. -/
def Leads (p q : Expr → Prop) (xs : List Expr) : Prop :=
  ∃ front x back, xs = front ++ x :: back ∧ p x ∧ ∀ y ∈ front, ¬ q y

section

variable {p q : Expr → Prop} {x : Expr} {xs : List Expr}

theorem not_leads_nil : ¬ Leads p q [] := by
  rintro ⟨front, x, back, hxs, -, -⟩
  exact List.append_ne_nil_of_right_ne_nil front (List.cons_ne_nil x back) hxs.symm

theorem leads_cons_iff : Leads p q (x :: xs) ↔ p x ∨ (¬ q x ∧ Leads p q xs) := by
  constructor
  · rintro ⟨front, y, back, hxs, hy, hfront⟩
    cases front with
    | nil =>
        obtain ⟨rfl, -⟩ := List.cons.inj hxs
        exact .inl hy
    | cons z front =>
        obtain ⟨rfl, rfl⟩ := List.cons.inj hxs
        exact .inr ⟨hfront _ List.mem_cons_self, front, y, back, rfl, hy,
          fun w hw => hfront w (List.mem_cons_of_mem _ hw)⟩
  · rintro (hx | ⟨hx, front, y, back, rfl, hy, hfront⟩)
    · exact ⟨[], x, xs, rfl, hx, fun _ h => absurd h List.not_mem_nil⟩
    · exact ⟨x :: front, y, back, rfl, hy, List.forall_mem_cons.mpr ⟨hx, hfront⟩⟩

end

/-- An analysis of an expression fails at the first foreign node, and its fault names that node. -/
def FailsAtFirst {α : Type} (analysis : Analysis) (e : Expr) (outcome : Except Fault α) : Prop :=
  ∃ f, firstForeign? (nodes e) = some f ∧ outcome = unknown f.kindName analysis

theorem seek_eq_true_iff (xs : List Expr) :
    seek xs = .ok true ↔ Leads IsVariable IsForeign xs := by
  induction xs with
  | nil => exact iff_of_false (by simp [seek]) not_leads_nil
  | cons x rest ih =>
      rw [leads_cons_iff]
      cases x <;> simp [seek, unknown, IsVariable, IsForeign, ih]

theorem seek_eq_false_iff (xs : List Expr) :
    seek xs = .ok false ↔ ∀ x ∈ xs, ¬ IsVariable x ∧ ¬ IsForeign x := by
  induction xs with
  | nil => simp [seek]
  | cons x rest ih =>
      rw [List.forall_mem_cons]
      cases x <;> simp [seek, unknown, IsVariable, IsForeign, ih]

theorem seek_fails_iff (xs : List Expr) :
    (∃ f, firstForeign? xs = some f ∧ seek xs = unknown f.kindName .containsVar) ↔
      Leads IsForeign IsVariable xs := by
  induction xs with
  | nil => exact iff_of_false (by simp [firstForeign?]) not_leads_nil
  | cons x rest ih =>
      rw [leads_cons_iff, ← ih, firstForeign?_cons]
      cases x <;> simp [seek, unknown, IsVariable, IsForeign, foreign?]

theorem survey_fails_iff {α : Type} (analysis : Analysis) (find : List Expr → α) (e : Expr) :
    FailsAtFirst analysis e (survey analysis find (nodes e)) ↔ ∃ x ∈ nodes e, IsForeign x := by
  rw [← firstForeign?_eq_some_iff]
  refine exists_congr fun f => and_iff_left_of_imp fun hf => ?_
  rw [survey, hf]

theorem subExpressions_eq_survey (e : Expr) :
    subExpressions e = survey .subExpressions List.tail (nodes e) := by
  rw [subExpressions, preorder_eq_survey, survey, survey]
  cases firstForeign? (nodes e) <;> rfl

theorem survey_of_known {α : Type} {analysis : Analysis} {find : List Expr → α} {xs : List Expr}
    (hxs : ∀ x ∈ xs, ¬ IsForeign x) : survey analysis find xs = .ok (find xs) := by
  rw [survey, (firstForeign?_eq_none_iff xs).mpr hxs]

theorem filterMap_variableName?_ne_nil_iff (xs : List Expr) :
    xs.filterMap variableName? ≠ [] ↔ ∃ x ∈ xs, IsVariable x := by
  rw [ne_eq, List.filterMap_eq_nil_iff]
  simp only [Classical.not_forall, exists_prop]
  refine exists_congr fun x => and_congr_right fun _ => ?_
  cases x <;> simp [variableName?, IsVariable]

theorem leads_iff_of_known {xs : List Expr} (hxs : ∀ x ∈ xs, ¬ IsForeign x) :
    Leads IsVariable IsForeign xs ↔ ∃ x ∈ xs, IsVariable x := by
  constructor
  · rintro ⟨front, x, back, rfl, hx, -⟩
    exact ⟨x, List.mem_append_right _ List.mem_cons_self, hx⟩
  · rintro ⟨x, hmem, hx⟩
    obtain ⟨front, back, rfl⟩ := List.append_of_mem hmem
    exact ⟨front, x, back, rfl, hx, fun y hy => hxs y (List.mem_append_left _ hy)⟩

/-- Weights, strict parts and used names fail together, namely where something foreign is among
the nodes. Otherwise the weight counts the expression and its strict parts, and the names are
those of the variables among them. Whether a variable is found depends on what comes first. -/
theorem analyses_agree (e : Expr) :
    (FailsAtFirst .size e (weight e) ↔ ∃ x ∈ nodes e, IsForeign x) ∧
      (FailsAtFirst .subExpressions e (subExpressions e) ↔ ∃ x ∈ nodes e, IsForeign x) ∧
      (FailsAtFirst .usedVars e (usedNames e) ↔ ∃ x ∈ nodes e, IsForeign x) ∧
      ((∃ x ∈ nodes e, IsForeign x) ∨ ∃ below names,
        nodes e = e :: below ∧ subExpressions e = .ok below ∧
          weight e = .ok (1 + below.length) ∧ usedNames e = .ok names ∧
          (∀ name, name ∈ names ↔ ∃ type, .variable name type ∈ e :: below) ∧
          (containsVariable e = .ok true ↔ names ≠ [])) ∧
      (containsVariable e = .ok true ↔ Leads IsVariable IsForeign (nodes e)) ∧
      (FailsAtFirst .containsVar e (containsVariable e) ↔ Leads IsForeign IsVariable (nodes e)) ∧
      (containsVariable e = .ok false ↔ ∀ x ∈ nodes e, ¬ IsVariable x ∧ ¬ IsForeign x) := by
  rw [weight_eq_survey, subExpressions_eq_survey, usedNames_eq_survey, containsVariable_eq_seek]
  refine ⟨survey_fails_iff _ _ e, survey_fails_iff _ _ e, survey_fails_iff _ _ e, ?_,
    seek_eq_true_iff _, seek_fails_iff _, seek_eq_false_iff _⟩
  by_cases hforeign : ∃ x ∈ nodes e, IsForeign x
  · exact .inl hforeign
  · have hknown : ∀ x ∈ nodes e, ¬ IsForeign x := fun x hx hf => hforeign ⟨x, hx, hf⟩
    obtain ⟨below, hbelow⟩ := nodes_eq_cons e
    refine .inr ⟨below, (nodes e).filterMap variableName?, hbelow, ?_, ?_, survey_of_known hknown,
      ?_, ?_⟩
    · rw [survey_of_known hknown, hbelow, List.tail_cons]
    · rw [survey_of_known hknown, hbelow, List.length_cons, Nat.add_comm]
    · intro name
      rw [← hbelow, mem_variableNames_iff]
    · rw [seek_eq_true_iff, leads_iff_of_known hknown, filterMap_variableName?_ne_nil_iff]

/-- An argument that is not known prevents the answer only where it comes before the variable. -/
example (c : Component) (f : Foreign) (name type : String) :
    containsVariable (.use c none [.variable name type, .foreign f]) = .ok true ∧
      containsVariable (.use c none [.foreign f, .variable name type]) =
        unknown f.kindName .containsVar :=
  ⟨rfl, rfl⟩

end FragmentSynthesis.Proofs.PreorderNodes
