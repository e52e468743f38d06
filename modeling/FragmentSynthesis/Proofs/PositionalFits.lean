import FragmentSynthesis.Proofs.LargestCounts

namespace FragmentSynthesis.Proofs.PositionalFits

open FragmentSynthesis.Binary64
open FragmentSynthesis.Components
open FragmentSynthesis.Expression
open FragmentSynthesis.ExpressionText
open FragmentSynthesis.Faults
open FragmentSynthesis.Matching
open FragmentSynthesis.Operators
open FragmentSynthesis.OrderedMaps
open FragmentSynthesis.Programs
open FragmentSynthesis.Proofs.FullMatches
open FragmentSynthesis.Proofs.LargestCounts
open FragmentSynthesis.Proofs.MatchCounts
open FragmentSynthesis.Proofs.Quotients
open FragmentSynthesis.Statement
open FragmentSynthesis.Values
open FragmentSynthesis.Weight

/-- Every part of an expression is found at the same position of another one, which may have a
receiver that the first one lacks. -/
inductive Fits : Expr → Expr → Prop
  | literal {v w type otherType text} (h : literalText v type = .ok text)
      (h' : literalText w otherType = .ok text) : Fits (.literal v type) (.literal w otherType)
  | variable (name type otherType) : Fits (.variable name type) (.variable name otherType)
  | unary (op) {operand operand'} (h : Fits operand operand') :
      Fits (.unary op operand) (.unary op operand')
  | binary (op) {left left' right right'} (hleft : Fits left left') (hright : Fits right right') :
      Fits (.binary op left right) (.binary op left' right')
  | use {component other receiver receiver' args args'}
      (hcomponent : component.identity = other.identity)
      (hreceives : receiver.isSome → receiver'.isSome)
      (hreceiver : ∀ r r', receiver = some r → receiver' = some r' → Fits r r')
      (hlength : args.length ≤ args'.length)
      (hargs : ∀ (i : Nat) e e', args[i]? = some e → args'[i]? = some e' → Fits e e') :
      Fits (.use component receiver args) (.use other receiver' args')

/-- An open test fits any test, a concrete one only a concrete one. -/
def FitsTest : Test → Test → Prop
  | .angelic _, _ => True
  | .concrete e, .concrete e' => Fits e e'
  | _, _ => False

/-- A statement of the same form has whatever a statement has, and its block may go on. Indents,
counters and the names of elements do not matter. -/
inductive FitsStmt : Stmt → Stmt → Prop
  | assign {indent indent' target target' value value'} (htarget : Fits target target')
      (hvalue : Fits value value') :
      FitsStmt (.assign indent target value) (.assign indent' target' value')
  | call {indent indent' function function'} (h : Fits function function') :
      FitsStmt (.call indent function) (.call indent' function')
  | branch {indent indent' test test' body body'} (htest : FitsTest test test')
      (hlength : body.length ≤ body'.length)
      (hbody : ∀ (i : Nat) s s', body[i]? = some s → body'[i]? = some s' → FitsStmt s s') :
      FitsStmt (.branch indent test body) (.branch indent' test' body')
  | loop {indent indent' head head' test test' body body'} (htest : FitsTest test test')
      (hlength : body.length ≤ body'.length)
      (hbody : ∀ (i : Nat) s s', body[i]? = some s → body'[i]? = some s' → FitsStmt s s') :
      FitsStmt (.loop indent head test body) (.loop indent' head' test' body')
  | foreach {indent indent' name name' type type' container container' body body'}
      (hcontainer : Fits container container') (hlength : body.length ≤ body'.length)
      (hbody : ∀ (i : Nat) s s', body[i]? = some s → body'[i]? = some s' → FitsStmt s s') :
      FitsStmt (.foreach indent name type container body)
        (.foreach indent' name' type' container' body')

/-- A fragment fits a node of its own sort. -/
def FitsNode : Node → Node → Prop
  | .expr f, .expr e => Fits f e
  | .stmt f, .stmt s => FitsStmt f s
  | _, _ => False

/-- A fragment fits one of the nodes that a search for it comes by. -/
def EmbeddedIn (p : Program) (f : Node) : Prop :=
  ∃ x, SearchedIn p x ∧ FitsNode f x

/-- A list is no longer than another one and its members fit those at the same positions. -/
def Positional {α : Type} (fits : α → α → Prop) (xs ys : List α) : Prop :=
  xs.length ≤ ys.length ∧ ∀ (i : Nat) x y, xs[i]? = some x → ys[i]? = some y → fits x y

section

variable {α : Type} {fits : α → α → Prop} {x y : α} {xs ys : List α}

theorem positional_nil : Positional fits [] ys :=
  ⟨Nat.zero_le _, fun i x y h => by simp at h⟩

theorem not_positional_nil : ¬ Positional fits (x :: xs) [] := by
  rintro ⟨hlength, -⟩
  exact Nat.not_succ_le_zero _ hlength

theorem positional_cons_iff :
    Positional fits (x :: xs) (y :: ys) ↔ fits x y ∧ Positional fits xs ys := by
  constructor
  · rintro ⟨hlength, hfits⟩
    exact ⟨hfits 0 x y rfl rfl, Nat.le_of_succ_le_succ hlength, fun i => hfits (i + 1)⟩
  · rintro ⟨hfirst, hlength, hfits⟩
    refine ⟨Nat.succ_le_succ hlength, ?_⟩
    intro i
    cases i with
    | zero =>
        rintro x' y' ⟨⟩ ⟨⟩
        exact hfirst
    | succ i => exact hfits i

end

section

variable {a b : Nat} {x y : Except Fault Nat}

theorem full_succ_iff (hx : AtMost a x) :
    (do let m ← x; return 1 + m) = .ok (1 + a) ↔ x = .ok a := by
  obtain ⟨m, rfl, -⟩ := hx
  show Except.ok (1 + m) = Except.ok (1 + a) ↔ _
  rw [Except.ok.injEq, Except.ok.injEq, Nat.add_right_inj]

/-- What one part lacks cannot be made up for by another one. -/
theorem full_add_iff (hx : AtMost a x) (hy : AtMost b y) :
    (do let m ← x; let n ← y; return m + n) = .ok (a + b) ↔ x = .ok a ∧ y = .ok b := by
  obtain ⟨m, rfl, hm⟩ := hx
  obtain ⟨n, rfl, hn⟩ := hy
  show Except.ok (m + n) = Except.ok (a + b) ↔ _
  rw [Except.ok.injEq, Except.ok.injEq, Except.ok.injEq]
  omega

theorem full_node_iff (hx : AtMost a x) (hy : AtMost b y) :
    (do let m ← x; let n ← y; return 1 + m + n) = .ok (1 + a + b) ↔ x = .ok a ∧ y = .ok b := by
  obtain ⟨m, rfl, hm⟩ := hx
  obtain ⟨n, rfl, hn⟩ := hy
  show Except.ok (1 + m + n) = Except.ok (1 + a + b) ↔ _
  rw [Except.ok.injEq, Except.ok.injEq, Except.ok.injEq]
  omega

theorem full_one_iff {c : Prop} [Decidable c] :
    (.ok (if c then 1 else 0) : Except Fault Nat) = .ok 1 ↔ c := by
  by_cases hc : c <;> simp [hc]

theorem ok_zero_ne (ha : 0 < a) : (.ok 0 : Except Fault Nat) ≠ .ok a := by
  intro h
  exact Nat.ne_of_lt ha (Except.ok.inj h)

theorem full_ite_iff {c : Prop} [Decidable c] (ha : 0 < a) :
    (if c then x else .ok 0) = .ok a ↔ c ∧ x = .ok a := by
  by_cases hc : c
  · rw [if_pos hc, and_iff_right hc]
  · rw [if_neg hc]
    exact iff_of_false (ok_zero_ne ha) fun h => hc h.1

theorem not_full_of_mismatch {kind otherKind : String} (h : kind ≠ otherKind) (ha : 0 < a) :
    countMismatch kind otherKind ≠ .ok a := by
  rw [countMismatch, if_neg h]
  exact ok_zero_ne ha

end

theorem fits_literal_iff {v w : Value} {type otherType text other : String}
    (h : literalText v type = .ok text) (h' : literalText w otherType = .ok other) :
    Fits (.literal v type) (.literal w otherType) ↔ text = other := by
  constructor
  · rintro ⟨htext, hother⟩
    exact (Except.ok.inj (h.symm.trans htext)).trans (Except.ok.inj (hother.symm.trans h'))
  · rintro rfl
    exact .literal h h'

theorem fits_variable_iff {name other type otherType : String} :
    Fits (.variable name type) (.variable other otherType) ↔ name = other := by
  constructor
  · rintro ⟨⟩
    rfl
  · rintro rfl
    exact .variable name type otherType

theorem fits_unary_iff {op other : UnaryOp} {operand operand' : Expr} :
    Fits (.unary op operand) (.unary other operand') ↔ op = other ∧ Fits operand operand' := by
  constructor
  · rintro ⟨⟩
    exact ⟨rfl, ‹_›⟩
  · rintro ⟨rfl, h⟩
    exact .unary op h

theorem fits_binary_iff {op other : BinaryOp} {left left' right right' : Expr} :
    Fits (.binary op left right) (.binary other left' right') ↔
      op = other ∧ Fits left left' ∧ Fits right right' := by
  constructor
  · rintro ⟨⟩
    exact ⟨rfl, ‹_›, ‹_›⟩
  · rintro ⟨rfl, hleft, hright⟩
    exact .binary op hleft hright

theorem fits_use_iff {component other : Component} {receiver receiver' : Option Expr}
    {args args' : List Expr} :
    Fits (.use component receiver args) (.use other receiver' args') ↔
      component.identity = other.identity ∧ (∀ r ∈ receiver, ∃ r' ∈ receiver', Fits r r') ∧
        Positional Fits args args' := by
  constructor
  · rintro ⟨⟩
    rename_i hcomponent hreceives hreceiver hlength hargs
    refine ⟨hcomponent, ?_, hlength, hargs⟩
    rintro r rfl
    obtain ⟨r', hr'⟩ := Option.isSome_iff_exists.mp (hreceives rfl)
    exact ⟨r', hr', hreceiver r r' rfl hr'⟩
  · rintro ⟨hcomponent, hreceiver, hlength, hargs⟩
    refine .use hcomponent ?_ ?_ hlength hargs
    · intro hsome
      obtain ⟨r, hr⟩ := Option.isSome_iff_exists.mp hsome
      obtain ⟨r', hr', -⟩ := hreceiver r hr
      exact Option.isSome_iff_exists.mpr ⟨r', hr'⟩
    · intro r r' hr hr'
      obtain ⟨r'', hr'', hfits⟩ := hreceiver r hr
      rwa [Option.some.inj (hr'.symm.trans hr'')]

mutual

theorem count_full_iff (f e : Expr) (hf : Comparable f) (he : Comparable e) :
    count f e = .ok (size f) ↔ Fits f e := by
  have hpos := size_pos hf
  cases f with
  | literal v type =>
      cases e with
      | literal w otherType =>
          obtain ⟨text, htext⟩ := hf
          obtain ⟨other, hother⟩ := he
          rw [count, countLiterals_eq htext hother, size, full_one_iff,
            fits_literal_iff htext hother]
      | foreign g => exact he.elim
      | _ => exact iff_of_false (not_full_of_mismatch (by simp [Expr.kindName]) hpos) nofun
  | «variable» name type =>
      cases e with
      | «variable» other otherType =>
          rw [count, size, full_one_iff, fits_variable_iff]
      | foreign g => exact he.elim
      | _ => exact iff_of_false (not_full_of_mismatch (by simp [Expr.kindName]) hpos) nofun
  | unary op operand =>
      cases e with
      | unary other operand' =>
          rw [count, full_ite_iff hpos, size, full_succ_iff (count_atMost operand operand' hf he),
            count_full_iff operand operand' hf he, fits_unary_iff]
      | binary other left' right' => exact iff_of_false (ok_zero_ne hpos) nofun
      | foreign g => exact he.elim
      | _ => exact iff_of_false (not_full_of_mismatch (by simp [Expr.kindName]) hpos) nofun
  | binary op left right =>
      cases e with
      | unary other operand' => exact iff_of_false (ok_zero_ne hpos) nofun
      | binary other left' right' =>
          rw [count, full_ite_iff hpos, size,
            full_node_iff (count_atMost left left' hf.1 he.1) (count_atMost right right' hf.2 he.2),
            count_full_iff left left' hf.1 he.1, count_full_iff right right' hf.2 he.2,
            fits_binary_iff]
      | foreign g => exact he.elim
      | _ => exact iff_of_false (not_full_of_mismatch (by simp [Expr.kindName]) hpos) nofun
  | use component receiver args =>
      cases e with
      | use other receiver' args' =>
          rw [fits_use_iff]
          cases receiver with
          | none =>
              cases receiver' with
              | none =>
                  rw [count, full_ite_iff hpos, size,
                    full_succ_iff (countEach_atMost args args' hf he),
                    countEach_full_iff args args' hf he]
                  simp
              | some receiver' =>
                  rw [count, full_ite_iff hpos, size,
                    full_succ_iff (countEach_atMost args args' hf he.2),
                    countEach_full_iff args args' hf he.2]
                  simp
          | some receiver =>
              cases receiver' with
              | none =>
                  -- Without a receiver to compare with, the count stays below the weight.
                  rw [count, full_ite_iff hpos, size]
                  refine iff_of_false ?_ (by simp)
                  rintro ⟨-, h⟩
                  obtain ⟨n, hn, hle⟩ := countEach_atMost args args' hf.2 he
                  rw [hn] at h
                  have hcount : 1 + n = 1 + size receiver + sizeOfEach args := Except.ok.inj h
                  have hreceiver := size_pos hf.1
                  omega
              | some receiver' =>
                  rw [count, full_ite_iff hpos, size,
                    full_node_iff (count_atMost receiver receiver' hf.1 he.1)
                      (countEach_atMost args args' hf.2 he.2),
                    count_full_iff receiver receiver' hf.1 he.1,
                    countEach_full_iff args args' hf.2 he.2]
                  simp
      | foreign g => exact he.elim
      | _ =>
          cases receiver <;>
            exact iff_of_false (not_full_of_mismatch (by simp [Expr.kindName]) hpos) nofun
  | foreign g => exact hf.elim

theorem countEach_full_iff (args args' : List Expr) (hargs : EachComparable args)
    (hargs' : EachComparable args') :
    countEach args args' = .ok (sizeOfEach args) ↔ Positional Fits args args' := by
  cases args with
  | nil => exact iff_of_true rfl positional_nil
  | cons e rest =>
      cases args' with
      | nil =>
          have hpos : 0 < sizeOfEach (e :: rest) :=
            Nat.lt_of_lt_of_le (size_pos hargs.1) (Nat.le_add_right _ _)
          exact iff_of_false (ok_zero_ne hpos) not_positional_nil
      | cons e' rest' =>
          rw [countEach, sizeOfEach, full_add_iff (count_atMost e e' hargs.1 hargs'.1)
              (countEach_atMost rest rest' hargs.2 hargs'.2),
            count_full_iff e e' hargs.1 hargs'.1, countEach_full_iff rest rest' hargs.2 hargs'.2,
            positional_cons_iff]

end

theorem countTests_full_iff (fragment test : Test) (hfragment : TestComparable fragment)
    (htest : TestComparable test) :
    countTests fragment test = .ok (sizeOfTest fragment) ↔ FitsTest fragment test := by
  cases fragment with
  | concrete e =>
      cases test with
      | concrete e' => exact count_full_iff e e' hfragment htest
      | angelic remembered => exact iff_of_false (ok_zero_ne (size_pos hfragment)) nofun
      | blank => exact htest.elim
      | unknown => exact htest.elim
  | angelic remembered =>
      cases test with
      | concrete e' => exact iff_of_true rfl trivial
      | angelic remembered' => exact iff_of_true rfl trivial
      | blank => exact htest.elim
      | unknown => exact htest.elim
  | blank => exact hfragment.elim
  | unknown => exact hfragment.elim

section

variable {indent indent' : Int} {body body' : List Stmt}

theorem fitsStmt_assign_iff {target target' value value' : Expr} :
    FitsStmt (.assign indent target value) (.assign indent' target' value') ↔
      Fits target target' ∧ Fits value value' := by
  constructor
  · rintro ⟨⟩
    exact ⟨‹_›, ‹_›⟩
  · rintro ⟨htarget, hvalue⟩
    exact .assign htarget hvalue

theorem fitsStmt_call_iff {function function' : Expr} :
    FitsStmt (.call indent function) (.call indent' function') ↔ Fits function function' := by
  constructor
  · rintro ⟨⟩
    exact ‹_›
  · exact .call

theorem fitsStmt_branch_iff {test test' : Test} :
    FitsStmt (.branch indent test body) (.branch indent' test' body') ↔
      FitsTest test test' ∧ Positional FitsStmt body body' := by
  constructor
  · rintro ⟨⟩
    exact ⟨‹_›, ‹_›, ‹_›⟩
  · rintro ⟨htest, hlength, hbody⟩
    exact .branch htest hlength hbody

theorem fitsStmt_loop_iff {head head' : LoopHead} {test test' : Test} :
    FitsStmt (.loop indent head test body) (.loop indent' head' test' body') ↔
      FitsTest test test' ∧ Positional FitsStmt body body' := by
  constructor
  · rintro ⟨⟩
    exact ⟨‹_›, ‹_›, ‹_›⟩
  · rintro ⟨htest, hlength, hbody⟩
    exact .loop htest hlength hbody

theorem fitsStmt_foreach_iff {name name' type type' : String} {container container' : Expr} :
    FitsStmt (.foreach indent name type container body)
        (.foreach indent' name' type' container' body') ↔
      Fits container container' ∧ Positional FitsStmt body body' := by
  constructor
  · rintro ⟨⟩
    exact ⟨‹_›, ‹_›, ‹_›⟩
  · rintro ⟨hcontainer, hlength, hbody⟩
    exact .foreach hcontainer hlength hbody

end

/-- The name of an assigned variable is one of the two that an assignment weighs besides its
value. -/
theorem sizeOfStmt_assign {indent : Int} {target value : Expr} (htarget : IsVariable target) :
    sizeOfStmt (.assign indent target value) = 1 + size target + size value := by
  cases target with
  | «variable» name type => rfl
  | _ => exact htarget.elim

mutual

theorem countStmt_full_iff (f s : Stmt) (hf : StmtComparable f) (hs : StmtComparable s) :
    countStmt f s = .ok (sizeOfStmt f) ↔ FitsStmt f s := by
  have hpos := sizeOfStmt_pos hf
  cases f with
  | assign indent target value =>
      cases s with
      | assign indent' target' value' =>
          have htarget := comparable_of_isVariable hf.1
          have htarget' := comparable_of_isVariable hs.1
          rw [countStmt, sizeOfStmt_assign hf.1,
            full_node_iff (count_atMost target target' htarget htarget')
              (count_atMost value value' hf.2 hs.2),
            count_full_iff target target' htarget htarget', count_full_iff value value' hf.2 hs.2,
            fitsStmt_assign_iff]
      | foreign g => exact hs.elim
      | _ => exact iff_of_false (not_full_of_mismatch (by simp [Stmt.kindName]) hpos) nofun
  | call indent function =>
      cases s with
      | call indent' function' =>
          rw [countStmt, sizeOfStmt, count_full_iff function function' hf hs, fitsStmt_call_iff]
      | foreign g => exact hs.elim
      | _ => exact iff_of_false (not_full_of_mismatch (by simp [Stmt.kindName]) hpos) nofun
  | branch indent test body =>
      cases s with
      | branch indent' test' body' =>
          rw [countStmt, sizeOfStmt,
            full_node_iff (countTests_atMost test test' hf.1 hs.1)
              (countBlock_atMost body body' hf.2 hs.2),
            countTests_full_iff test test' hf.1 hs.1, countBlock_full_iff body body' hf.2 hs.2,
            fitsStmt_branch_iff]
      | foreign g => exact hs.elim
      | _ => exact iff_of_false (not_full_of_mismatch (by simp [Stmt.kindName]) hpos) nofun
  | loop indent head test body =>
      cases s with
      | loop indent' head' test' body' =>
          rw [countStmt, sizeOfStmt,
            full_node_iff (countTests_atMost test test' hf.1 hs.1)
              (countBlock_atMost body body' hf.2 hs.2),
            countTests_full_iff test test' hf.1 hs.1, countBlock_full_iff body body' hf.2 hs.2,
            fitsStmt_loop_iff]
      | foreign g => exact hs.elim
      | _ => exact iff_of_false (not_full_of_mismatch (by simp [Stmt.kindName]) hpos) nofun
  | foreach indent name type container body =>
      cases s with
      | foreach indent' name' type' container' body' =>
          rw [countStmt, sizeOfStmt,
            full_node_iff (count_atMost container container' hf.1 hs.1)
              (countBlock_atMost body body' hf.2 hs.2),
            count_full_iff container container' hf.1 hs.1, countBlock_full_iff body body' hf.2 hs.2,
            fitsStmt_foreach_iff]
      | foreign g => exact hs.elim
      | _ => exact iff_of_false (not_full_of_mismatch (by simp [Stmt.kindName]) hpos) nofun
  | foreign g => exact hf.elim

theorem countBlock_full_iff (body body' : List Stmt) (hbody : BlockComparable body)
    (hbody' : BlockComparable body') :
    countBlock body body' = .ok (sizeOfBlock body) ↔ Positional FitsStmt body body' := by
  cases body with
  | nil => exact iff_of_true rfl positional_nil
  | cons s rest =>
      cases body' with
      | nil =>
          have hpos : 0 < sizeOfBlock (s :: rest) :=
            Nat.lt_of_lt_of_le (sizeOfStmt_pos hbody.1) (Nat.le_add_right _ _)
          exact iff_of_false (ok_zero_ne hpos) not_positional_nil
      | cons s' rest' =>
          rw [countBlock, sizeOfBlock, full_add_iff (countStmt_atMost s s' hbody.1 hbody'.1)
              (countBlock_atMost rest rest' hbody.2 hbody'.2),
            countStmt_full_iff s s' hbody.1 hbody'.1,
            countBlock_full_iff rest rest' hbody.2 hbody'.2, positional_cons_iff]

end

theorem countNode_full_iff {f x : Node} (hf : NodeComparable f) (hx : NodeComparable x) :
    countNode f x = .ok (sizeOfNode f) ↔ FitsNode f x := by
  have hpos := sizeOfNode_pos hf
  cases f with
  | expr e =>
      cases x with
      | expr e' => exact count_full_iff e e' hf hx
      | _ => exact iff_of_false (ok_zero_ne hpos) nofun
  | stmt s =>
      cases x with
      | stmt s' => exact countStmt_full_iff s s' hf hx
      | _ => exact iff_of_false (ok_zero_ne hpos) nofun
  | text _ => exact hf.elim
  | absent => exact hf.elim

variable {f : Node} {p : Program}

theorem bestMatch_full_iff (hf : NodeComparable f) (hp : ProgramComparable p) :
    bestMatch f p = .ok (sizeOfNode f) ↔ EmbeddedIn p f := by
  rw [(bestMatch_largest hf hp).eq_bound_iff (sizeOfNode_pos hf) (bestMatch_atMost hf hp)]
  refine exists_congr fun x => and_congr_right fun hx => ?_
  exact countNode_full_iff hf (comparable_of_searched hp hx)

/-- The best match of a fragment is its weight, and its usefulness is one, exactly if the fragment
fits a node of the program. A double tells a lower score from one as long as it holds all numbers
up to the weight. -/
theorem usefulness_one_iff_embedded (f : Node) (p : Program) (hf : NodeComparable f)
    (hp : ProgramComparable p) :
    ∃ weight best, weightOfNode f = .ok weight ∧ bestMatch f p = .ok best ∧
      (best = weight ↔ EmbeddedIn p f) ∧
      (∀ x, ofInt? weight = some x → EmbeddedIn p f → usefulness f p = .ok one) ∧
      (weight ≤ 2 ^ 53 → (usefulness f p = .ok one ↔ EmbeddedIn p f)) := by
  have hpos := sizeOfNode_pos hf
  obtain ⟨best, hbest, hle⟩ := bestMatch_atMost hf hp
  have hfull : best = sizeOfNode f ↔ EmbeddedIn p f := by
    rw [← bestMatch_full_iff hf hp, hbest, Except.ok.injEq]
  have hscore := usefulness_eq hbest (weightOfNode_eq hf)
  have hone (x : Double) (hx : ofInt? (sizeOfNode f) = some x) (h : EmbeddedIn p f) :
      usefulness f p = .ok one := by
    rw [hscore, hfull.mpr h, div_ofInt_self hpos hx]
  refine ⟨sizeOfNode f, best, weightOfNode_eq hf, hbest, hfull, hone, ?_⟩
  intro hsmall
  obtain ⟨x, hx⟩ := exists_ofInt? hpos hsmall
  refine ⟨?_, hone x hx⟩
  intro h
  rw [hscore, Except.ok.injEq] at h
  apply hfull.mp
  by_contra hne
  exact div_ofInt_ne_one (Nat.lt_of_le_of_ne hle hne) hsmall h

/-- Follows the largest element and counts its changes. -/
def largest : Program :=
  let n := Expr.variable "n" "int"
  let x := Expr.variable "x" "int"
  { Program.new "largest" "int" (OrderedMap.ofList [("xs", "int[]")]) with
    statements := [.foreach 1 "x" "int" (.variable "xs" "int[]")
      [.branch 2 (.concrete (.binary .lt n x))
        [.assign 3 n x, .assign 3 (.variable "k" "int")
          (.binary .add (.variable "k" "int") (.literal (.int 1) "int"))]]]
    result := some n }

/-- The same loop with its test open, a shorter block and another element. -/
def openLoop : Stmt :=
  .foreach 1 "y" "int" (.variable "xs" "int[]")
    [.branch 2 (.angelic none) [.assign 3 (.variable "n" "int") (.variable "x" "int")]]

theorem usefulness_one_iff_embedded_openLoop :
    NodeComparable (.stmt openLoop) ∧ ProgramComparable largest ∧
      EmbeddedIn largest (.stmt openLoop) ∧
      ∃ weight best, weightOfNode (.stmt openLoop) = .ok weight ∧
        bestMatch (.stmt openLoop) largest = .ok best ∧
        (best = weight ↔ EmbeddedIn largest (.stmt openLoop)) ∧
        (∀ x, ofInt? weight = some x → EmbeddedIn largest (.stmt openLoop) →
          usefulness (.stmt openLoop) largest = .ok one) ∧
        (weight ≤ 2 ^ 53 →
          (usefulness (.stmt openLoop) largest = .ok one ↔
            EmbeddedIn largest (.stmt openLoop))) := by
  have hf : NodeComparable (.stmt openLoop) :=
    ⟨trivial, ⟨trivial, ⟨trivial, trivial⟩, trivial⟩, trivial⟩
  have hp : ProgramComparable largest := by
    have hone : Comparable (.literal (.int 1) "int") := ⟨"1", by decide⟩
    refine ⟨⟨⟨trivial, ⟨⟨trivial, trivial⟩, ⟨trivial, trivial⟩, ⟨trivial, trivial, hone⟩, trivial⟩,
      trivial⟩, trivial⟩, ?_⟩
    rintro e ⟨⟩
    exact trivial
  have hembedded : EmbeddedIn largest (.stmt openLoop) := by
    refine ⟨.stmt _, ⟨_, List.mem_singleton.mpr rfl, .self⟩, ?_⟩
    refine fitsStmt_foreach_iff.mpr ⟨.variable .., positional_cons_iff.mpr ⟨?_, positional_nil⟩⟩
    refine fitsStmt_branch_iff.mpr ⟨trivial, positional_cons_iff.mpr ⟨?_, positional_nil⟩⟩
    exact .assign (.variable ..) (.variable ..)
  exact ⟨hf, hp, hembedded, usefulness_one_iff_embedded _ _ hf hp⟩

end FragmentSynthesis.Proofs.PositionalFits
