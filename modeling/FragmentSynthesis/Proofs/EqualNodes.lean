import FragmentSynthesis.Proofs.ImageMeasures
import FragmentSynthesis.Proofs.InterchangeableNodes
import FragmentSynthesis.Proofs.LargestCounts
import FragmentSynthesis.Proofs.SameForms

namespace FragmentSynthesis.Proofs.EqualNodes

open FragmentSynthesis.Components
open FragmentSynthesis.Expression
open FragmentSynthesis.Faults
open FragmentSynthesis.Matching
open FragmentSynthesis.Operators
open FragmentSynthesis.Proofs.ImageMeasures
open FragmentSynthesis.Proofs.InterchangeableNodes
open FragmentSynthesis.Proofs.KnownFragments
open FragmentSynthesis.Proofs.LargestCounts
open FragmentSynthesis.Proofs.Outlines
open FragmentSynthesis.Proofs.SameForms
open FragmentSynthesis.Proofs.TokenReading
open FragmentSynthesis.Proofs.UniqueDecoding
open FragmentSynthesis.Statement
open FragmentSynthesis.StatementText
open FragmentSynthesis.TokenTables
open FragmentSynthesis.Weight

mutual

/-- The components that an expression uses. -/
def componentsIn : Expr → List Component
  | .literal _ _ => []
  | .variable _ _ => []
  | .unary _ operand => componentsIn operand
  | .binary _ left right => componentsIn left ++ componentsIn right
  | .use c none args => c :: componentsInEach args
  | .use c (some receiver) args => c :: (componentsIn receiver ++ componentsInEach args)
  | .foreign _ => []

def componentsInEach : List Expr → List Component
  | [] => []
  | e :: rest => componentsIn e ++ componentsInEach rest

end

def componentsInTest : Test → List Component
  | .concrete e => componentsIn e
  | _ => []

mutual

/-- The components that a statement uses, those of remembered tests left out. -/
def componentsInStmt : Stmt → List Component
  | .assign _ target value => componentsIn target ++ componentsIn value
  | .call _ function => componentsIn function
  | .branch _ test body => componentsInTest test ++ componentsInBlock body
  | .loop _ _ test body => componentsInTest test ++ componentsInBlock body
  | .foreach _ _ _ container body => componentsIn container ++ componentsInBlock body
  | .foreign _ => []

def componentsInBlock : List Stmt → List Component
  | [] => []
  | s :: rest => componentsInStmt s ++ componentsInBlock rest

end

/-- The components in an expression or a statement. -/
def componentsInNode : Node → List Component
  | .expr e => componentsIn e
  | .stmt s => componentsInStmt s
  | .text _ => []
  | .absent => []

/-- A component of the first list is the same as one of the second if they share a token. Operations
on arrays of one kind do, as their keys tell the kind only. -/
def ToldByToken (components others : List Component) : Prop :=
  ∀ c ∈ components, ∀ d ∈ others, c.token = d.token → c.identity = d.identity

section

variable {c d : Component} {components components' others others' : List Component}

theorem ToldByToken.mono (h : ToldByToken components others)
    (hcomponents : components' ⊆ components) (hothers : others' ⊆ others) :
    ToldByToken components' others' := by
  intro c hc d hd htoken
  exact h c (hcomponents hc) d (hothers hd) htoken

theorem ToldByToken.first (h : ToldByToken (components ++ components') (others ++ others')) :
    ToldByToken components others :=
  h.mono (List.subset_append_left _ _) (List.subset_append_left _ _)

theorem ToldByToken.second (h : ToldByToken (components ++ components') (others ++ others')) :
    ToldByToken components' others' :=
  h.mono (List.subset_append_right _ _) (List.subset_append_right _ _)

theorem ToldByToken.head (h : ToldByToken (c :: components) (d :: others))
    (htoken : c.token = d.token) : c.identity = d.identity :=
  h c List.mem_cons_self d List.mem_cons_self htoken

theorem ToldByToken.tail (h : ToldByToken (c :: components) (d :: others)) :
    ToldByToken components others :=
  h.mono (List.subset_cons_self _ _) (List.subset_cons_self _ _)

end

variable {table : TokenTable}

mutual

theorem interchangeable_of_outline (e e' : Expr) (he : Encodable table e)
    (hcomponents : ToldByToken (componentsIn e) (componentsIn e')) (h : outline e = outline e') :
    Interchangeable e e' := by
  have hform := sameForm_of_outline h
  cases e with
  | literal value type =>
      cases hform with
      | literal htext => exact .literal htext
  | «variable» name type =>
      cases hform with
      | «variable» _ _ type' => exact .variable name type type'
  | unary op operand =>
      cases hform with
      | unary _ hoperand =>
          exact .unary op (interchangeable_of_outline operand _ he hcomponents hoperand)
  | binary op left right =>
      cases hform with
      | binary _ hleft hright =>
          exact .binary op (interchangeable_of_outline left _ he.1 hcomponents.first hleft)
            (interchangeable_of_outline right _ he.2 hcomponents.second hright)
  | use c receiver args =>
      cases hform with
      | static htoken hargs =>
          exact .static (hcomponents.head htoken)
            (eachInterchangeable_of_outline args _ he.2 hcomponents.tail hargs)
      | @onReceiver _ _ receiver _ _ _ htoken hreceiver hargs =>
          obtain ⟨-, he, heach⟩ := he
          have hbelow := hcomponents.tail
          exact .onReceiver (hcomponents.head htoken)
            (interchangeable_of_outline receiver _ he hbelow.first hreceiver)
            (eachInterchangeable_of_outline args _ heach hbelow.second hargs)
  | foreign f => exact he.elim

theorem eachInterchangeable_of_outline (args args' : List Expr) (hargs : EachEncodable table args)
    (hcomponents : ToldByToken (componentsInEach args) (componentsInEach args'))
    (h : outlineEach args = outlineEach args') : EachInterchangeable args args' := by
  cases args with
  | nil =>
      cases args' with
      | nil => exact .nil
      | cons e' rest' => cases h
  | cons e rest =>
      cases args' with
      | nil => cases h
      | cons e' rest' =>
          obtain ⟨hfirst, hrest⟩ := List.cons.inj h
          exact .cons (interchangeable_of_outline e e' hargs.1 hcomponents.first hfirst)
            (eachInterchangeable_of_outline rest rest' hargs.2 hcomponents.second hrest)

end

theorem testInterchangeable_of_outline (test test' : Test) (htest : TestEncodable table test)
    (htest' : TestEncodable table test')
    (hcomponents : ToldByToken (componentsInTest test) (componentsInTest test'))
    (h : outlineTest test = outlineTest test') : TestInterchangeable test test' := by
  cases testSameForm_of_outline htest htest' h with
  | concrete h => exact .concrete (interchangeable_of_outline _ _ htest hcomponents h)
  | angelic remembered remembered' => exact .angelic remembered remembered'

mutual

theorem stmtInterchangeable_of_outline (s s' : Stmt) (hs : StmtEncodable table s)
    (hs' : StmtEncodable table s')
    (hcomponents : ToldByToken (componentsInStmt s) (componentsInStmt s'))
    (h : outlineStmt s = outlineStmt s') : StmtInterchangeable s s' := by
  have hform := stmtSameForm_of_outline h
  cases s with
  | assign indent target value =>
      cases hform with
      | assign _ indent' htarget hvalue =>
          exact .assign indent indent'
            (interchangeable_of_outline target _ hs.1 hcomponents.first htarget)
            (interchangeable_of_outline value _ hs.2 hcomponents.second hvalue)
  | call indent function =>
      cases hform with
      | call _ indent' hfunction =>
          exact .call indent indent'
            (interchangeable_of_outline function _ hs hcomponents hfunction)
  | branch indent test body =>
      cases hform with
      | branch _ indent' htest hbody =>
          exact .branch indent indent'
            (testInterchangeable_of_outline test _ hs.1 hs'.1 hcomponents.first htest)
            (blockInterchangeable_of_outline body _ hs.2 hs'.2 hcomponents.second hbody)
  | loop indent head test body =>
      cases hform with
      | loop _ indent' hhead htest hbody =>
          exact .loop indent indent' head _
            (testInterchangeable_of_outline test _ hs.2.1 hs'.2.1 hcomponents.first htest)
            (blockInterchangeable_of_outline body _ hs.2.2 hs'.2.2 hcomponents.second hbody)
  | foreach indent name type container body =>
      cases hform with
      | foreach _ indent' _ _ hcontainer hbody =>
          exact .foreach indent indent' name name type type
            (interchangeable_of_outline container _ hs.2.1 hcomponents.first hcontainer)
            (blockInterchangeable_of_outline body _ hs.2.2 hs'.2.2 hcomponents.second hbody)
  | foreign f => exact hs.elim

theorem blockInterchangeable_of_outline (body body' : List Stmt) (hbody : BlockEncodable table body)
    (hbody' : BlockEncodable table body')
    (hcomponents : ToldByToken (componentsInBlock body) (componentsInBlock body'))
    (h : outlineBlock body = outlineBlock body') : BlockInterchangeable body body' := by
  cases body with
  | nil =>
      cases body' with
      | nil => exact .nil
      | cons s' rest' => cases h
  | cons s rest =>
      cases body' with
      | nil => cases h
      | cons s' rest' =>
          obtain ⟨hfirst, hrest⟩ := List.cons.inj h
          exact .cons
            (stmtInterchangeable_of_outline s s' hbody.1 hbody'.1 hcomponents.first hfirst)
            (blockInterchangeable_of_outline rest rest' hbody.2 hbody'.2 hcomponents.second hrest)

end

/-- The node is an expression or a statement that can be encoded. -/
def NodeEncodable (table : TokenTable) : Node → Prop
  | .expr e => Encodable table e
  | .stmt s => StmtEncodable table s
  | .text _ => False
  | .absent => False

/-- Two nodes are one, or they count as equal. -/
def Equal (x y : Node) : Prop :=
  x = y ∨ sameNode x y = .ok true

theorem code_of_same {α : Type} {sameClass : Prop} [Decidable sameClass] {x y : Except Fault α}
    [BEq α] [LawfulBEq α]
    (h : (do if ¬ sameClass then return false
             let a ← x
             let b ← y
             return a == b : Except Fault Bool) = .ok true) : ∃ a, x = .ok a ∧ y = .ok a := by
  by_cases hclass : sameClass
  · rw [if_neg (not_not_intro hclass)] at h
    obtain ⟨a, ha, h⟩ := ok_of_bind h
    obtain ⟨b, hb, h⟩ := ok_of_bind h
    obtain rfl : a = b := eq_of_beq (Except.ok.inj h)
    exact ⟨a, ha, hb⟩
  · rw [if_pos hclass] at h
    cases h

theorem interchangeable_of_equal {e e' : Expr} (he : Encodable table e) (he' : Encodable table e')
    (hcomponents : ToldByToken (componentsIn e) (componentsIn e'))
    (h : Equal (.expr e) (.expr e')) : Interchangeable e e' := by
  rcases h with h | h
  · rw [Node.expr.inj h]
    exact interchangeable_refl e'
  · obtain ⟨code, hcode, hcode'⟩ := code_of_same h
    have houtline := decodedUniquely outline_of_encode e e' he he' code code hcode hcode'
      (List.prefix_refl _)
    exact interchangeable_of_outline e e' he hcomponents houtline.2

theorem stmtInterchangeable_of_equal {s s' : Stmt} (hs : StmtEncodable table s)
    (hs' : StmtEncodable table s')
    (hcomponents : ToldByToken (componentsInStmt s) (componentsInStmt s'))
    (h : Equal (.stmt s) (.stmt s')) : StmtInterchangeable s s' := by
  rcases h with h | h
  · rw [Node.stmt.inj h]
    exact stmtInterchangeable_refl s'
  · obtain ⟨code, hcode, hcode'⟩ := code_of_same h
    have houtline := decodedUniquely outlineStmt_of_encode s s' hs hs' code code hcode hcode'
      (List.prefix_refl _)
    exact stmtInterchangeable_of_outline s s' hs hs' hcomponents houtline.2

/-- What analyses tell of one node they tell of the other: its weight, how much of a fragment it
counts and how much it counts as a fragment, and the best matches in programs that it is part of. -/
structure SameMatches (x y : Node) : Prop where
  weight : ∃ n, weightOfNode x = .ok n ∧ weightOfNode y = .ok n
  countIn : ∀ f, countNode f x = countNode f y
  countOf : ∀ f, countNode x f = countNode y f
  bestMatch : ∀ p front back f,
    bestMatch f (placed p front back x) = bestMatch f (placed p front back y)

theorem sameMatches_expr {e e' : Expr} (he : e.isKnown = true) (h : Interchangeable e e') :
    SameMatches (.expr e) (.expr e') where
  weight := (weight_answers e he).same (weight_congr e e' h).symm
  countIn f := by
    cases f with
    | expr f => exact count_congr f f e e' (interchangeable_refl f) h
    | _ => rfl
  countOf f := by
    cases f with
    | expr f => exact count_congr e e' f f h (interchangeable_refl f)
    | _ => rfl
  bestMatch p front back f := bestMatch_placed_expr p front back h f

theorem sameMatches_stmt {s s' : Stmt} (hs : s.isKnown = true) (h : StmtInterchangeable s s') :
    SameMatches (.stmt s) (.stmt s') where
  weight := (measures_answer s hs).1.same (weightOfStmt_congr s s' h).symm
  countIn f := by
    cases f with
    | stmt f => exact countStmt_congr f f s s' (stmtInterchangeable_refl f) h
    | _ => rfl
  countOf f := by
    cases f with
    | stmt f => exact countStmt_congr s s' f f h (stmtInterchangeable_refl f)
    | _ => rfl
  bestMatch p front back f := bestMatch_placed_stmt p front back h f

/-- A node and an equal one weigh and match the same, and each can stand in a program for the
other, as long as their tokens tell their components. -/
theorem sameMatches_of_equal (table : TokenTable) (x y : Node) (hx : NodeEncodable table x)
    (hy : NodeEncodable table y) (hknown : nodeKnown x = true)
    (hcomponents : ToldByToken (componentsInNode x) (componentsInNode y)) (h : Equal x y) :
    SameMatches x y := by
  cases x with
  | expr e =>
      cases y with
      | expr e' => exact sameMatches_expr hknown (interchangeable_of_equal hx hy hcomponents h)
      | stmt s' => rcases h with h | h <;> cases h
      | text _ => exact hy.elim
      | absent => exact hy.elim
  | stmt s =>
      cases y with
      | expr e' => rcases h with h | h <;> cases h
      | stmt s' => exact sameMatches_stmt hknown (stmtInterchangeable_of_equal hx hy hcomponents h)
      | text _ => exact hy.elim
      | absent => exact hy.elim
  | text _ => exact hx.elim
  | absent => exact hx.elim

/-- An element of a list, whose type is the type parameter of the list. -/
def elementRecord : Record where
  kind := .method
  declaringType := some "java.util.List"
  name := some "get"
  returnType := "E"
  argTypes := ["int"]
  isStatic := false
  typeParams := ["E"]
  complete := rfl

/-- The method that gives elements of a list, for lists of a type. -/
def elementOf (type : String) : Component :=
  ((unregistered elementRecord (some (.named type))).register TokenTable.empty).1

def elementTable : TokenTable :=
  ((unregistered elementRecord none).register TokenTable.empty).2

theorem issued_elementOf (type : String) : Issued elementTable (elementOf type) := by
  have h : ofRecord elementRecord TokenTable.empty (some (.named type)) =
      .ok (elementOf type, elementTable) := rfl
  exact .record h

/-- Looks at an element of a list, and assigns it in an open branch. -/
def pickElement (component : Component) (type : String) (depth : Int) (remembered : Option Expr) :
    Node :=
  let element := Expr.use component (some (.variable "xs" "java.util.List")) [.variable "i" "int"]
  .stmt (.branch depth (.concrete (.binary .eq element (.variable "y" type)))
    [.branch (depth + 1) (.angelic remembered) [.assign (depth + 2) (.variable "z" type) element]])

theorem nodeEncodable_pickElement (type otherType : String) (depth : Int)
    (remembered : Option Expr) :
    NodeEncodable elementTable (pickElement (elementOf type) otherType depth remembered) := by
  have htakes : Takes elementTable (elementOf type) true 1 := by
    refine ⟨(issued_elementOf type).listed, rfl, rfl, ?_⟩
    rintro n ⟨⟩
  have hxs : Plain "xs" := by decide
  have hi : Plain "i" := by decide
  have hy : Plain "y" := by decide
  have hz : Plain "z" := by decide
  have helement : Encodable elementTable
      (.use (elementOf type) (some (.variable "xs" "java.util.List")) [.variable "i" "int"]) :=
    ⟨htakes, hxs, hi, trivial⟩
  exact ⟨⟨helement, hy⟩, ⟨trivial, ⟨hz, helement⟩, trivial⟩, trivial⟩

/-- The elements of two lists are taken by instances of one method. -/
theorem sameMatches_of_equal_pickElement :
    let text := elementOf "java.lang.String"
    let number := elementOf "java.lang.Integer"
    let x := pickElement text "java.lang.String" 1 none
    let y := pickElement number "java.lang.Integer" 3 (some (.literal (.bool true) "boolean"))
    text ≠ number ∧
      (NodeEncodable elementTable x ∧ NodeEncodable elementTable y ∧ nodeKnown x = true ∧
        ToldByToken (componentsInNode x) (componentsInNode y) ∧ Equal x y) ∧
      SameMatches x y := by
  intro text number x y
  have hne : text ≠ number := by decide
  have hx : NodeEncodable elementTable x := nodeEncodable_pickElement _ _ _ _
  have hy : NodeEncodable elementTable y := nodeEncodable_pickElement _ _ _ _
  have hcomponents : ToldByToken (componentsInNode x) (componentsInNode y) := by
    unfold ToldByToken
    decide +kernel
  have hequal : Equal x y := .inr (by decide +kernel)
  exact ⟨hne, ⟨hx, hy, rfl, hcomponents, hequal⟩,
    sameMatches_of_equal elementTable x y hx hy rfl hcomponents hequal⟩

end FragmentSynthesis.Proofs.EqualNodes
