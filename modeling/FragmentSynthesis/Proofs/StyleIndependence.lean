import FragmentSynthesis.Proofs.KnownFragments
import Mathlib.Data.List.Forall2

namespace FragmentSynthesis.Proofs.StyleIndependence

open FragmentSynthesis.Components
open FragmentSynthesis.Expression
open FragmentSynthesis.ExpressionText
open FragmentSynthesis.Faults
open FragmentSynthesis.Operators
open FragmentSynthesis.Proofs.KnownFragments
open FragmentSynthesis.Statement
open FragmentSynthesis.StatementText
open FragmentSynthesis.TypeName

/-- Two answers are values that are related, or they are the same fault. -/
inductive Agree {α β : Type} (Related : α → β → Prop) : Except Fault α → Except Fault β → Prop
  | ok {a : α} {b : β} (h : Related a b) : Agree Related (.ok a) (.ok b)
  | error (fault : Fault) : Agree Related (.error fault) (.error fault)

/-- Two answers end alike, whatever the values are. -/
abbrev EndAlike {α β : Type} : Except Fault α → Except Fault β → Prop :=
  Agree fun _ _ => True

section

variable {α β γ δ : Type} {P : α → β → Prop} {Q : γ → δ → Prop}

theorem agree_bind {x : Except Fault α} {y : Except Fault β} {f : α → Except Fault γ}
    {g : β → Except Fault δ} (h : Agree P x y) (hfg : ∀ a b, P a b → Agree Q (f a) (g b)) :
    Agree Q (x >>= f) (y >>= g) := by
  cases h with
  | ok h => exact hfg _ _ h
  | error fault => exact .error fault

theorem agree_refl (x : Except Fault α) : Agree Eq x x := by
  cases x with
  | ok a => exact .ok rfl
  | error fault => exact .error fault

theorem Agree.eq {x y : Except Fault α} (h : Agree Eq x y) : x = y := by
  cases h with
  | ok h => rw [h]
  | error fault => rfl

theorem endAlike_ok (a : α) (b : β) : EndAlike (.ok a) (.ok b) :=
  .ok trivial

theorem endAlike_refl (x : Except Fault α) : EndAlike x x := by
  cases x with
  | ok a => exact endAlike_ok a a
  | error fault => exact .error fault

theorem endAlike_bind {x : Except Fault α} {y : Except Fault β} {f : α → Except Fault γ}
    {g : β → Except Fault δ} (h : EndAlike x y) (hfg : ∀ a b, EndAlike (f a) (g b)) :
    EndAlike (x >>= f) (y >>= g) :=
  agree_bind h fun a b _ => hfg a b

end

mutual

/-- What is foreign in an expression ends alike in all styles. -/
def StyleBlind : Expr → Prop
  | .literal .. => True
  | .variable .. => True
  | .unary _ operand => StyleBlind operand
  | .binary _ left right => StyleBlind left ∧ StyleBlind right
  | .use _ none args => EachStyleBlind args
  | .use _ (some receiver) args => StyleBlind receiver ∧ EachStyleBlind args
  | .foreign f => ∀ style other, EndAlike (f.text style) (f.text other)

def EachStyleBlind : List Expr → Prop
  | [] => True
  | e :: rest => StyleBlind e ∧ EachStyleBlind rest

end

def TestStyleBlind : Test → Prop
  | .concrete e => StyleBlind e
  | .angelic none => True
  | .angelic (some e) => StyleBlind e
  | .blank => True
  | .unknown => True

mutual

/-- The expressions that the text of a statement shows are all blind to the style. -/
def StmtStyleBlind : Stmt → Prop
  | .assign _ _ value => StyleBlind value
  | .call _ function => StyleBlind function
  | .branch _ test body => TestStyleBlind test ∧ BlockStyleBlind body
  | .loop _ _ test body => TestStyleBlind test ∧ BlockStyleBlind body
  | .foreach _ _ _ container body => StyleBlind container ∧ BlockStyleBlind body
  | .foreign (.pass _) => True
  | .foreign (.expression e) => StyleBlind e
  | .foreign (.other _) => True

def BlockStyleBlind : List Stmt → Prop
  | [] => True
  | s :: rest => StmtStyleBlind s ∧ BlockStyleBlind rest

end

/-- The expressions that the text of a node shows are all blind to the style. -/
def NodeStyleBlind : Node → Prop
  | .expr e => StyleBlind e
  | .stmt s => StmtStyleBlind s
  | .text _ => True
  | .absent => True

theorem endAlike_leftText (parent : Precedence) (child : Except Fault Precedence)
    {text text' : Except Fault String} (h : EndAlike text text') :
    EndAlike (leftText parent child text) (leftText parent child text') :=
  endAlike_bind (endAlike_refl child) fun _ _ => endAlike_bind h fun _ _ => endAlike_ok _ _

theorem endAlike_rightText (parent : Precedence) (child : Except Fault Precedence)
    {text text' : Except Fault String} (h : EndAlike text text') :
    EndAlike (rightText parent child text) (rightText parent child text') :=
  endAlike_bind (endAlike_refl child) fun _ _ => endAlike_bind h fun _ _ => endAlike_ok _ _

theorem endAlike_operandText (op : UnaryOp) (child : Except Fault Precedence)
    {text text' : Except Fault String} (h : EndAlike text text') :
    EndAlike (operandText op child text) (operandText op child text') :=
  endAlike_bind h fun _ _ => endAlike_bind (endAlike_refl child) fun _ _ => endAlike_ok _ _

section

variable {texts texts' : List (Except Fault String)} (h : List.Forall₂ EndAlike texts texts')

include h

theorem endAlike_pick (i : Nat) : EndAlike (pick texts i) (pick texts' i) := by
  induction h generalizing i with
  | nil => exact .error _
  | cons hfirst hrest ih =>
      cases i with
      | zero => exact hfirst
      | succ i => exact ih i

theorem endAlike_sequence :
    EndAlike (ExpressionText.sequence texts) (ExpressionText.sequence texts') := by
  induction h with
  | nil => exact endAlike_ok _ _
  | cons hfirst hrest ih =>
      exact endAlike_bind hfirst fun _ _ => endAlike_bind ih fun _ _ => endAlike_ok _ _

theorem endAlike_arrayText (args : List Expr) :
    EndAlike (arrayText args texts) (arrayText args texts') := by
  cases args with
  | nil => exact .error _
  | cons array rest => exact endAlike_leftText _ _ (endAlike_pick h 0)

/-- A component in use has a text if its parts do, whatever its names are. -/
theorem endAlike_useText (style other : NameStyle) (c : Component)
    {receiver receiver' : Option (Except Fault String)}
    (hreceiver : EndAlike (receiver.getD (.ok (c.displayType style)))
      (receiver'.getD (.ok (c.displayType other))))
    {array array' : Except Fault String} (harray : EndAlike array array') :
    EndAlike (useText style c receiver array texts) (useText other c receiver' array' texts') := by
  unfold useText
  cases c.kind with
  | method =>
      exact endAlike_bind hreceiver fun _ _ => endAlike_bind (endAlike_sequence h) fun _ _ =>
        endAlike_ok _ _
  | constructor => exact endAlike_bind (endAlike_sequence h) fun _ _ => endAlike_ok _ _
  | field =>
      dsimp only
      split
      · exact endAlike_ok _ _
      · exact endAlike_bind hreceiver fun _ _ => endAlike_ok _ _
  | arrayGet =>
      exact endAlike_bind harray fun _ _ => endAlike_bind (endAlike_pick h 1) fun _ _ =>
        endAlike_ok _ _
  | arraySet =>
      exact endAlike_bind harray fun _ _ => endAlike_bind (endAlike_pick h 1) fun _ _ =>
        endAlike_bind (endAlike_pick h 2) fun _ _ => endAlike_ok _ _
  | arrayLength => exact endAlike_bind harray fun _ _ => endAlike_ok _ _

end

section

variable (style other : NameStyle)

mutual

theorem endAlike_render (e : Expr) (h : StyleBlind e) :
    EndAlike (render style e) (render other e) := by
  cases e with
  | literal value type => exact endAlike_refl _
  | «variable» name type => exact endAlike_refl _
  | unary op operand =>
      exact endAlike_bind (endAlike_operandText op _ (endAlike_render operand h)) fun _ _ =>
        endAlike_ok _ _
  | binary op left right =>
      refine endAlike_bind (endAlike_leftText _ _ (endAlike_render left h.1)) fun _ _ => ?_
      exact endAlike_bind (endAlike_rightText _ _ (endAlike_render right h.2)) fun _ _ =>
        endAlike_ok _ _
  | use c receiver args =>
      cases receiver with
      | none =>
          have hargs := endAlike_renderEach args h
          exact endAlike_useText hargs style other c (endAlike_ok _ _)
            (endAlike_arrayText hargs args)
      | some receiver =>
          have hargs := endAlike_renderEach args h.2
          have hreceiver := endAlike_leftText (kindPrecedence c.kind) (precedence receiver)
            (endAlike_render receiver h.1)
          refine endAlike_useText hargs style other c ?_ (endAlike_arrayText hargs args)
          exact hreceiver
  | foreign f => exact h style other

theorem endAlike_renderEach (args : List Expr) (h : EachStyleBlind args) :
    List.Forall₂ EndAlike (renderEach style args) (renderEach other args) := by
  cases args with
  | nil => exact .nil
  | cons e rest => exact .cons (endAlike_render e h.1) (endAlike_renderEach rest h.2)

end

theorem endAlike_renderTest (test : Test) (h : TestStyleBlind test) :
    EndAlike (renderTest style test) (renderTest other test) := by
  cases test with
  | concrete e => exact endAlike_render style other e h
  | angelic remembered =>
      cases remembered with
      | none => exact endAlike_refl _
      | some e => exact endAlike_bind (endAlike_render style other e h) fun _ _ => endAlike_ok _ _
  | blank => exact endAlike_refl _
  | unknown => exact endAlike_refl _

theorem endAlike_targetName (target : Expr) :
    EndAlike (targetName style target) (targetName other target) := by
  cases target with
  | «variable» name type => exact endAlike_refl _
  | use c receiver args => exact endAlike_ok _ _
  | _ => exact .error _

mutual

theorem endAlike_renderStmt (s : Stmt) (h : StmtStyleBlind s) :
    EndAlike (renderStmt style s) (renderStmt other s) := by
  cases s with
  | assign indent target value =>
      refine endAlike_bind (endAlike_targetName style other target) fun _ _ => ?_
      exact endAlike_bind (endAlike_render style other value h) fun _ _ => endAlike_ok _ _
  | call indent function =>
      exact endAlike_bind (endAlike_render style other function h) fun _ _ => endAlike_ok _ _
  | branch indent test body =>
      refine endAlike_bind (endAlike_renderTest style other test h.1) fun _ _ => ?_
      exact endAlike_bind (endAlike_renderBlock body h.2) fun _ _ => endAlike_ok _ _
  | loop indent head test body =>
      refine endAlike_bind (endAlike_renderTest style other test h.1) fun _ _ => ?_
      exact endAlike_bind (endAlike_renderBlock body h.2) fun _ _ => endAlike_ok _ _
  | foreach indent name type container body =>
      refine endAlike_bind (endAlike_render style other container h.1) fun _ _ => ?_
      exact endAlike_bind (endAlike_renderBlock body h.2) fun _ _ => endAlike_ok _ _
  | foreign f =>
      cases f with
      | pass indent => exact endAlike_refl _
      | expression e => exact endAlike_render style other e h
      | other kind => exact endAlike_refl _

theorem endAlike_renderBlock (body : List Stmt) (h : BlockStyleBlind body) :
    EndAlike (renderBlock style body) (renderBlock other body) := by
  cases body with
  | nil => exact endAlike_refl _
  | cons s rest =>
      refine endAlike_bind (endAlike_renderStmt s h.1) fun _ _ => ?_
      exact endAlike_bind (endAlike_renderBlock rest h.2) fun _ _ => endAlike_ok _ _

end

theorem endAlike_renderNode (n : Node) (h : NodeStyleBlind n) :
    EndAlike (renderNode style n) (renderNode other n) := by
  cases n with
  | expr e => exact endAlike_render style other e h
  | stmt s => exact endAlike_renderStmt style other s h
  | text s => exact endAlike_refl _
  | absent => exact endAlike_refl _

end

theorem styleBlind_hole : StyleBlind (.foreign .hole) :=
  fun _ _ => endAlike_ok _ _

mutual

theorem styleBlind_of_known (e : Expr) (h : e.isKnown = true) : StyleBlind e := by
  cases e with
  | literal value type => trivial
  | «variable» name type => trivial
  | unary op operand => exact styleBlind_of_known operand h
  | binary op left right =>
      obtain ⟨hleft, hright⟩ := Bool.and_eq_true_iff.mp h
      exact ⟨styleBlind_of_known left hleft, styleBlind_of_known right hright⟩
  | use c receiver args =>
      cases receiver with
      | none => exact styleBlind_of_argsKnown args h
      | some receiver =>
          obtain ⟨hreceiver, hargs⟩ := Bool.and_eq_true_iff.mp h
          exact ⟨styleBlind_of_known receiver hreceiver, styleBlind_of_argsKnown args hargs⟩
  | foreign f => cases h

theorem styleBlind_of_argsKnown (args : List Expr) (h : argsKnown args = true) :
    EachStyleBlind args := by
  cases args with
  | nil => trivial
  | cons e rest =>
      obtain ⟨he, hrest⟩ := Bool.and_eq_true_iff.mp h
      exact ⟨styleBlind_of_known e he, styleBlind_of_argsKnown rest hrest⟩

end

theorem styleBlind_of_testKnown (test : Test) (h : test.isKnown = true) : TestStyleBlind test := by
  cases test with
  | concrete e => exact styleBlind_of_known e h
  | angelic remembered =>
      cases remembered with
      | none => trivial
      | some e => exact styleBlind_of_known e h
  | blank => trivial
  | unknown => trivial

mutual

theorem styleBlind_of_stmtKnown (s : Stmt) (h : s.isKnown = true) : StmtStyleBlind s := by
  cases s with
  | assign indent target value =>
      exact styleBlind_of_known value (Bool.and_eq_true_iff.mp h).2
  | call indent function => exact styleBlind_of_known function h
  | branch indent test body =>
      obtain ⟨htest, hbody⟩ := Bool.and_eq_true_iff.mp h
      exact ⟨styleBlind_of_testKnown test htest, styleBlind_of_blockKnown body hbody⟩
  | loop indent head test body =>
      obtain ⟨htest, hbody⟩ := Bool.and_eq_true_iff.mp h
      exact ⟨styleBlind_of_testKnown test htest, styleBlind_of_blockKnown body hbody⟩
  | foreach indent name type container body =>
      obtain ⟨hcontainer, hbody⟩ := Bool.and_eq_true_iff.mp h
      exact ⟨styleBlind_of_known container hcontainer, styleBlind_of_blockKnown body hbody⟩
  | foreign f => cases h

theorem styleBlind_of_blockKnown (body : List Stmt) (h : blockKnown body = true) :
    BlockStyleBlind body := by
  cases body with
  | nil => trivial
  | cons s rest =>
      obtain ⟨hs, hrest⟩ := Bool.and_eq_true_iff.mp h
      exact ⟨styleBlind_of_stmtKnown s hs, styleBlind_of_blockKnown rest hrest⟩

end

theorem styleBlind_of_nodeKnown (n : Node) (h : nodeKnown n = true) : NodeStyleBlind n := by
  cases n with
  | expr e => exact styleBlind_of_known e h
  | stmt s => exact styleBlind_of_stmtKnown s h
  | text s => trivial
  | absent => trivial

end FragmentSynthesis.Proofs.StyleIndependence
