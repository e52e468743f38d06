import FragmentSynthesis.Matching

namespace FragmentSynthesis.Proofs.MatchCounts

open FragmentSynthesis.Expression
open FragmentSynthesis.ExpressionText
open FragmentSynthesis.Faults
open FragmentSynthesis.Matching
open FragmentSynthesis.Statement
open FragmentSynthesis.UsedNames
open FragmentSynthesis.Weight

mutual

/-- Nothing in an expression is foreign, and every constant has a text. -/
def Comparable : Expr → Prop
  | .literal value type => ∃ text, literalText value type = .ok text
  | .variable _ _ => True
  | .unary _ operand => Comparable operand
  | .binary _ left right => Comparable left ∧ Comparable right
  | .use _ none args => EachComparable args
  | .use _ (some receiver) args => Comparable receiver ∧ EachComparable args
  | .foreign _ => False

def EachComparable : List Expr → Prop
  | [] => True
  | e :: rest => Comparable e ∧ EachComparable rest

end

/-- What an open test remembers is never compared. -/
def TestComparable : Test → Prop
  | .concrete e => Comparable e
  | .angelic _ => True
  | .blank => False
  | .unknown => False

/-- The expression is a variable. -/
def IsVariable : Expr → Prop
  | .variable _ _ => True
  | _ => False

mutual

/-- The same for a statement, whose assignments are to variables. -/
def StmtComparable : Stmt → Prop
  | .assign _ target value => IsVariable target ∧ Comparable value
  | .call _ function => Comparable function
  | .branch _ test body => TestComparable test ∧ BlockComparable body
  | .loop _ _ test body => TestComparable test ∧ BlockComparable body
  | .foreach _ _ _ container body => Comparable container ∧ BlockComparable body
  | .foreign _ => False

def BlockComparable : List Stmt → Prop
  | [] => True
  | s :: rest => StmtComparable s ∧ BlockComparable rest

end

theorem comparable_of_isVariable {e : Expr} (he : IsVariable e) : Comparable e := by
  cases e with
  | «variable» name type => exact trivial
  | _ => exact he.elim

mutual

/-- A statement that can be searched for and in, whatever its assignments are to. -/
def StmtSearchable : Stmt → Prop
  | .assign _ target value => Comparable target ∧ Comparable value
  | .call _ function => Comparable function
  | .branch _ test body => TestComparable test ∧ BlockSearchable body
  | .loop _ _ test body => TestComparable test ∧ BlockSearchable body
  | .foreach _ _ _ container body => Comparable container ∧ BlockSearchable body
  | .foreign _ => False

/-- All statements of a block can be searched. -/
def BlockSearchable : List Stmt → Prop
  | [] => True
  | s :: rest => StmtSearchable s ∧ BlockSearchable rest

end

mutual

theorem searchable_of_comparable (s : Stmt) (hs : StmtComparable s) : StmtSearchable s := by
  cases s with
  | assign indent target value => exact ⟨comparable_of_isVariable hs.1, hs.2⟩
  | call indent function => exact hs
  | branch indent test body => exact ⟨hs.1, blockSearchable_of_comparable body hs.2⟩
  | loop indent head test body => exact ⟨hs.1, blockSearchable_of_comparable body hs.2⟩
  | foreach indent name type container body =>
      exact ⟨hs.1, blockSearchable_of_comparable body hs.2⟩
  | foreign f => exact hs.elim

theorem blockSearchable_of_comparable (body : List Stmt) (hbody : BlockComparable body) :
    BlockSearchable body := by
  cases body with
  | nil => exact trivial
  | cons s rest =>
      exact ⟨searchable_of_comparable s hbody.1, blockSearchable_of_comparable rest hbody.2⟩

end

mutual

/-- The number of nodes of an expression, what is foreign left out. -/
def size : Expr → Nat
  | .literal _ _ => 1
  | .variable _ _ => 1
  | .unary _ operand => 1 + size operand
  | .binary _ left right => 1 + size left + size right
  | .use _ none args => 1 + sizeOfEach args
  | .use _ (some receiver) args => 1 + size receiver + sizeOfEach args
  | .foreign _ => 0

def sizeOfEach : List Expr → Nat
  | [] => 0
  | e :: rest => size e + sizeOfEach rest

end

/-- The weight of a concrete test, and zero for any other. -/
def sizeOfTest : Test → Nat
  | .concrete e => size e
  | _ => 0

mutual

/-- The weight of a statement that can be compared. -/
def sizeOfStmt : Stmt → Nat
  | .assign _ _ value => 2 + size value
  | .call _ function => size function
  | .branch _ test body => 1 + sizeOfTest test + sizeOfBlock body
  | .loop _ _ test body => 1 + sizeOfTest test + sizeOfBlock body
  | .foreach _ _ _ container body => 1 + size container + sizeOfBlock body
  | .foreign _ => 0

def sizeOfBlock : List Stmt → Nat
  | [] => 0
  | s :: rest => sizeOfStmt s + sizeOfBlock rest

end

mutual

theorem weight_eq (e : Expr) (he : Comparable e) : weight e = .ok (size e) := by
  cases e with
  | literal value type => rfl
  | «variable» name type => rfl
  | unary op operand => rw [weight, weight_eq operand he]; rfl
  | binary op left right => rw [weight, weight_eq left he.1, weight_eq right he.2]; rfl
  | use component receiver args =>
      cases receiver with
      | none => rw [weight, weightEach_eq args he]; rfl
      | some receiver => rw [weight, weight_eq receiver he.1, weightEach_eq args he.2]; rfl
  | foreign f => exact he.elim

theorem weightEach_eq (args : List Expr) (hargs : EachComparable args) :
    weightEach args = .ok (sizeOfEach args) := by
  cases args with
  | nil => rfl
  | cons e rest => rw [weightEach, weight_eq e hargs.1, weightEach_eq rest hargs.2]; rfl

end

theorem weightOfTest_eq (test : Test) (htest : TestComparable test) :
    weightOfTest test = .ok (sizeOfTest test) := by
  cases test with
  | concrete e => exact weight_eq e htest
  | angelic remembered => rfl
  | blank => exact htest.elim
  | unknown => exact htest.elim

mutual

theorem weightOfStmt_of_searchable (s : Stmt) (hs : StmtSearchable s) :
    weightOfStmt s = .ok (sizeOfStmt s) := by
  cases s with
  | assign indent target value => rw [weightOfStmt, weight_eq value hs.2]; rfl
  | call indent function => exact weight_eq function hs
  | branch indent test body =>
      rw [weightOfStmt, weightOfTest_eq test hs.1, weightOfBlock_of_searchable body hs.2]; rfl
  | loop indent head test body =>
      rw [weightOfStmt, weightOfTest_eq test hs.1, weightOfBlock_of_searchable body hs.2]; rfl
  | foreach indent name type container body =>
      rw [weightOfStmt, weight_eq container hs.1, weightOfBlock_of_searchable body hs.2]; rfl
  | foreign f => exact hs.elim

theorem weightOfBlock_of_searchable (body : List Stmt) (hbody : BlockSearchable body) :
    weightOfBlock body = .ok (sizeOfBlock body) := by
  cases body with
  | nil => rfl
  | cons s rest =>
      rw [weightOfBlock, weightOfStmt_of_searchable s hbody.1,
        weightOfBlock_of_searchable rest hbody.2]
      rfl

end

theorem weightOfStmt_eq (s : Stmt) (hs : StmtComparable s) :
    weightOfStmt s = .ok (sizeOfStmt s) :=
  weightOfStmt_of_searchable s (searchable_of_comparable s hs)

theorem size_pos {e : Expr} (he : Comparable e) : 0 < size e := by
  cases e with
  | use component receiver args => cases receiver <;> simp only [size] <;> omega
  | foreign f => exact he.elim
  | _ => simp only [size]; omega

theorem size_pos_of_searchable {s : Stmt} (hs : StmtSearchable s) : 0 < sizeOfStmt s := by
  cases s with
  | call indent function => exact size_pos hs
  | foreign f => exact hs.elim
  | _ => simp only [sizeOfStmt]; omega

theorem sizeOfStmt_pos {s : Stmt} (hs : StmtComparable s) : 0 < sizeOfStmt s :=
  size_pos_of_searchable (searchable_of_comparable s hs)

/-- An analysis answers with a number that is no larger than a bound. -/
def AtMost (bound : Nat) (x : Except Fault Nat) : Prop :=
  ∃ n, x = .ok n ∧ n ≤ bound

theorem atMost_zero (bound : Nat) : AtMost bound (.ok 0) :=
  ⟨0, rfl, Nat.zero_le bound⟩

theorem AtMost.add {a b : Nat} {x y : Except Fault Nat} (hx : AtMost a x) (hy : AtMost b y) :
    AtMost (a + b) (do let m ← x; let n ← y; return m + n) := by
  obtain ⟨m, rfl, hm⟩ := hx
  obtain ⟨n, rfl, hn⟩ := hy
  exact ⟨m + n, rfl, Nat.add_le_add hm hn⟩

theorem AtMost.succ {a : Nat} {x : Except Fault Nat} (hx : AtMost a x) :
    AtMost (1 + a) (do let m ← x; return 1 + m) := by
  obtain ⟨m, rfl, hm⟩ := hx
  exact ⟨1 + m, rfl, Nat.add_le_add_left hm 1⟩

theorem AtMost.node {a b : Nat} {x y : Except Fault Nat} (hx : AtMost a x) (hy : AtMost b y) :
    AtMost (1 + a + b) (do let m ← x; let n ← y; return 1 + m + n) := by
  obtain ⟨m, rfl, hm⟩ := hx
  obtain ⟨n, rfl, hn⟩ := hy
  exact ⟨1 + m + n, rfl, by omega⟩

theorem atMost_ite {c : Prop} [Decidable c] {a : Nat} {x : Except Fault Nat} (hx : AtMost a x) :
    AtMost a (if c then x else .ok 0) := by
  split
  · exact hx
  · exact atMost_zero a

/-- Nodes of different known classes have nothing in common. -/
theorem atMost_mismatch {a b : String} (h : a ≠ b) (bound : Nat) :
    AtMost bound (countMismatch a b) := by
  rw [countMismatch, if_neg h]
  exact atMost_zero bound

theorem countLiterals_eq {v w : Values.Value} {type otherType text other : String}
    (h : literalText v type = .ok text) (h' : literalText w otherType = .ok other) :
    countLiterals v type w otherType = .ok (if text = other then 1 else 0) := by
  rw [countLiterals, h, h']
  rfl

mutual

theorem count_atMost (f e : Expr) (hf : Comparable f) (he : Comparable e) :
    AtMost (size f) (count f e) := by
  cases f with
  | literal v type =>
      cases e with
      | literal w otherType =>
          obtain ⟨text, htext⟩ := hf
          obtain ⟨other, hother⟩ := he
          refine ⟨_, countLiterals_eq htext hother, ?_⟩
          rw [size]
          split <;> omega
      | foreign g => exact he.elim
      | _ => exact atMost_mismatch (by simp [Expr.kindName]) _
  | «variable» name type =>
      cases e with
      | «variable» other otherType =>
          refine ⟨_, rfl, ?_⟩
          rw [size]
          split <;> omega
      | foreign g => exact he.elim
      | _ => exact atMost_mismatch (by simp [Expr.kindName]) _
  | unary op operand =>
      cases e with
      | unary other operand' => exact atMost_ite (count_atMost operand operand' hf he).succ
      | binary other left' right' => exact atMost_zero _
      | foreign g => exact he.elim
      | _ => exact atMost_mismatch (by simp [Expr.kindName]) _
  | binary op left right =>
      cases e with
      | unary other operand' => exact atMost_zero _
      | binary other left' right' =>
          exact atMost_ite ((count_atMost left left' hf.1 he.1).node
            (count_atMost right right' hf.2 he.2))
      | foreign g => exact he.elim
      | _ => exact atMost_mismatch (by simp [Expr.kindName]) _
  | use component receiver args =>
      cases e with
      | use other receiver' args' =>
          cases receiver with
          | none =>
              cases receiver' with
              | none => exact atMost_ite (countEach_atMost args args' hf he).succ
              | some receiver' => exact atMost_ite (countEach_atMost args args' hf he.2).succ
          | some receiver =>
              cases receiver' with
              | none =>
                  have hcount : AtMost (size (.use component (some receiver) args)) (do
                      let args ← countEach args args'
                      return 1 + args) := by
                    obtain ⟨n, hn, hle⟩ := (countEach_atMost args args' hf.2 he).succ
                    refine ⟨n, hn, ?_⟩
                    rw [size]
                    omega
                  exact atMost_ite hcount
              | some receiver' =>
                  exact atMost_ite ((count_atMost receiver receiver' hf.1 he.1).node
                    (countEach_atMost args args' hf.2 he.2))
      | foreign g => exact he.elim
      | _ =>
          cases receiver <;> exact atMost_mismatch (by simp [Expr.kindName]) _
  | foreign g => exact hf.elim

theorem countEach_atMost (args args' : List Expr) (hargs : EachComparable args)
    (hargs' : EachComparable args') : AtMost (sizeOfEach args) (countEach args args') := by
  cases args with
  | nil => exact atMost_zero _
  | cons e rest =>
      cases args' with
      | nil => exact atMost_zero _
      | cons e' rest' =>
          exact (count_atMost e e' hargs.1 hargs'.1).add
            (countEach_atMost rest rest' hargs.2 hargs'.2)

end

theorem countTests_atMost (fragment test : Test) (hfragment : TestComparable fragment)
    (htest : TestComparable test) : AtMost (sizeOfTest fragment) (countTests fragment test) := by
  cases fragment with
  | concrete e =>
      cases test with
      | concrete e' => exact count_atMost e e' hfragment htest
      | angelic remembered => exact atMost_zero _
      | blank => exact htest.elim
      | unknown => exact htest.elim
  | angelic remembered =>
      cases test with
      | concrete e' => exact atMost_zero _
      | angelic remembered' => exact atMost_zero _
      | blank => exact htest.elim
      | unknown => exact htest.elim
  | blank => exact hfragment.elim
  | unknown => exact hfragment.elim

mutual

theorem countStmt_atMost (f s : Stmt) (hf : StmtComparable f) (hs : StmtComparable s) :
    AtMost (sizeOfStmt f) (countStmt f s) := by
  cases f with
  | assign indent target value =>
      cases s with
      | assign indent' target' value' =>
          -- The name counts one of the two that an assignment weighs besides its value.
          obtain ⟨m, htarget, hm⟩ := count_atMost target target'
            (comparable_of_isVariable hf.1) (comparable_of_isVariable hs.1)
          obtain ⟨n, hvalue, hn⟩ := count_atMost value value' hf.2 hs.2
          have hone : size target = 1 := by
            cases target with
            | «variable» name type => rfl
            | _ => exact hf.1.elim
          refine ⟨1 + m + n, ?_, ?_⟩
          · rw [countStmt, htarget, hvalue]; rfl
          · rw [sizeOfStmt]; omega
      | foreign g => exact hs.elim
      | _ => exact atMost_mismatch (by simp [Stmt.kindName]) _
  | call indent function =>
      cases s with
      | call indent' function' => exact count_atMost function function' hf hs
      | foreign g => exact hs.elim
      | _ => exact atMost_mismatch (by simp [Stmt.kindName]) _
  | branch indent test body =>
      cases s with
      | branch indent' test' body' =>
          exact (countTests_atMost test test' hf.1 hs.1).node
            (countBlock_atMost body body' hf.2 hs.2)
      | foreign g => exact hs.elim
      | _ => exact atMost_mismatch (by simp [Stmt.kindName]) _
  | loop indent head test body =>
      cases s with
      | loop indent' head' test' body' =>
          exact (countTests_atMost test test' hf.1 hs.1).node
            (countBlock_atMost body body' hf.2 hs.2)
      | foreign g => exact hs.elim
      | _ => exact atMost_mismatch (by simp [Stmt.kindName]) _
  | foreach indent name type container body =>
      cases s with
      | foreach indent' name' type' container' body' =>
          exact (count_atMost container container' hf.1 hs.1).node
            (countBlock_atMost body body' hf.2 hs.2)
      | foreign g => exact hs.elim
      | _ => exact atMost_mismatch (by simp [Stmt.kindName]) _
  | foreign g => exact hf.elim

theorem countBlock_atMost (body body' : List Stmt) (hbody : BlockComparable body)
    (hbody' : BlockComparable body') : AtMost (sizeOfBlock body) (countBlock body body') := by
  cases body with
  | nil => exact atMost_zero _
  | cons s rest =>
      cases body' with
      | nil => exact atMost_zero _
      | cons s' rest' =>
          exact (countStmt_atMost s s' hbody.1 hbody'.1).add
            (countBlock_atMost rest rest' hbody.2 hbody'.2)

end

mutual

theorem count_self (e : Expr) (he : Comparable e) : count e e = .ok (size e) := by
  cases e with
  | literal value type =>
      obtain ⟨text, htext⟩ := he
      rw [count, countLiterals_eq htext htext, if_pos rfl]
      rfl
  | «variable» name type => rw [count, if_pos rfl]; rfl
  | unary op operand => rw [count, if_pos rfl, count_self operand he]; rfl
  | binary op left right =>
      rw [count, if_pos rfl, count_self left he.1, count_self right he.2]; rfl
  | use component receiver args =>
      cases receiver with
      | none => rw [count, if_pos rfl, countEach_self args he]; rfl
      | some receiver =>
          rw [count, if_pos rfl, count_self receiver he.1, countEach_self args he.2]; rfl
  | foreign f => exact he.elim

theorem countEach_self (args : List Expr) (hargs : EachComparable args) :
    countEach args args = .ok (sizeOfEach args) := by
  cases args with
  | nil => rfl
  | cons e rest => rw [countEach, count_self e hargs.1, countEach_self rest hargs.2]; rfl

end

theorem countTests_self (test : Test) (htest : TestComparable test) :
    countTests test test = .ok (sizeOfTest test) := by
  cases test with
  | concrete e => exact count_self e htest
  | angelic remembered => rfl
  | blank => exact htest.elim
  | unknown => exact htest.elim

mutual

theorem countStmt_self (s : Stmt) (hs : StmtComparable s) :
    countStmt s s = .ok (sizeOfStmt s) := by
  cases s with
  | assign indent target value =>
      cases target with
      | «variable» name type =>
          rw [countStmt, count_self _ (comparable_of_isVariable hs.1), count_self value hs.2]; rfl
      | _ => exact hs.1.elim
  | call indent function => exact count_self function hs
  | branch indent test body =>
      rw [countStmt, countTests_self test hs.1, countBlock_self body hs.2]; rfl
  | loop indent head test body =>
      rw [countStmt, countTests_self test hs.1, countBlock_self body hs.2]; rfl
  | foreach indent name type container body =>
      rw [countStmt, count_self container hs.1, countBlock_self body hs.2]; rfl
  | foreign f => exact hs.elim

theorem countBlock_self (body : List Stmt) (hbody : BlockComparable body) :
    countBlock body body = .ok (sizeOfBlock body) := by
  cases body with
  | nil => rfl
  | cons s rest => rw [countBlock, countStmt_self s hbody.1, countBlock_self rest hbody.2]; rfl

end

end FragmentSynthesis.Proofs.MatchCounts
