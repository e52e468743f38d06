import FragmentSynthesis.Proofs.KnownFragments
import FragmentSynthesis.Renaming

namespace FragmentSynthesis.Proofs.NameImages

open FragmentSynthesis.Expression
open FragmentSynthesis.Faults
open FragmentSynthesis.Programs
open FragmentSynthesis.Proofs.KnownFragments
open FragmentSynthesis.Renaming
open FragmentSynthesis.Statement
open FragmentSynthesis.StoppingChanges

mutual

/-- The names in an expression, in the order in which they stand there. -/
def namesIn : Expr → List String
  | .literal _ _ => []
  | .variable name _ => [name]
  | .unary _ operand => namesIn operand
  | .binary _ left right => namesIn left ++ namesIn right
  | .use _ none args => namesInEach args
  | .use _ (some receiver) args => namesIn receiver ++ namesInEach args
  | .foreign _ => []

def namesInEach : List Expr → List String
  | [] => []
  | e :: rest => namesIn e ++ namesInEach rest

end

/-- What an open test remembers counts as well. -/
def namesInTest : Test → List String
  | .concrete e => namesIn e
  | .angelic none => []
  | .angelic (some e) => namesIn e
  | .blank => []
  | .unknown => []

/-- A loop that only tests may carry a name too. -/
def namesInHead : LoopHead → List String
  | .counting counter _ => [counter]
  | .testing counter => counter.toList

mutual

/-- The names in a statement, those of counters and elements included. -/
def namesInStmt : Stmt → List String
  | .assign _ target value => namesIn target ++ namesIn value
  | .call _ function => namesIn function
  | .branch _ test body => namesInTest test ++ namesInBlock body
  | .loop _ head test body => namesInHead head ++ (namesInTest test ++ namesInBlock body)
  | .foreach _ name _ container body => name :: (namesIn container ++ namesInBlock body)
  | .foreign _ => []

def namesInBlock : List Stmt → List String
  | [] => []
  | s :: rest => namesInStmt s ++ namesInBlock rest

end

/-- The names in an expression or a statement. -/
def namesInNode : Node → List String
  | .expr e => namesIn e
  | .stmt s => namesInStmt s
  | .text _ => []
  | .absent => []

/-- The names in what is returned. -/
def namesInResult : Option Expr → List String
  | none => []
  | some e => namesIn e

/-- The names in a program, those in its scope included. -/
def namesInProgram (p : Program) : List String :=
  p.scope.takenNames ++ (namesInBlock p.statements ++ namesInResult p.result)

section

variable (f : String → String)

mutual

/-- An expression with every name replaced by its image. -/
def mapNames : Expr → Expr
  | .literal value type => .literal value type
  | .variable name type => .variable (f name) type
  | .unary op operand => .unary op (mapNames operand)
  | .binary op left right => .binary op (mapNames left) (mapNames right)
  | .use component none args => .use component none (mapNamesEach args)
  | .use component (some receiver) args =>
      .use component (some (mapNames receiver)) (mapNamesEach args)
  | .foreign g => .foreign g

def mapNamesEach : List Expr → List Expr
  | [] => []
  | e :: rest => mapNames e :: mapNamesEach rest

end

def mapNamesInTest : Test → Test
  | .concrete e => .concrete (mapNames f e)
  | .angelic none => .angelic none
  | .angelic (some e) => .angelic (some (mapNames f e))
  | .blank => .blank
  | .unknown => .unknown

def mapNamesInHead : LoopHead → LoopHead
  | .counting counter declared => .counting (f counter) declared
  | .testing counter => .testing (counter.map f)

mutual

/-- A statement with every name replaced by its image. -/
def mapNamesInStmt : Stmt → Stmt
  | .assign indent target value => .assign indent (mapNames f target) (mapNames f value)
  | .call indent function => .call indent (mapNames f function)
  | .branch indent test body => .branch indent (mapNamesInTest f test) (mapNamesInBlock body)
  | .loop indent head test body =>
      .loop indent (mapNamesInHead f head) (mapNamesInTest f test) (mapNamesInBlock body)
  | .foreach indent name type container body =>
      .foreach indent (f name) type (mapNames f container) (mapNamesInBlock body)
  | .foreign g => .foreign g

def mapNamesInBlock : List Stmt → List Stmt
  | [] => []
  | s :: rest => mapNamesInStmt s :: mapNamesInBlock rest

end

/-- An expression or a statement with every name replaced by its image. -/
def mapNamesInNode : Node → Node
  | .expr e => .expr (mapNames f e)
  | .stmt s => .stmt (mapNamesInStmt f s)
  | .text s => .text s
  | .absent => .absent

/-- A program with every name replaced by its image, in its scope as well. -/
def mapNamesInProgram (p : Program) : Program :=
  { p with
    scope := p.scope.rename f
    statements := mapNamesInBlock f p.statements
    result := p.result.map (mapNames f) }

mutual

theorem run_renameExpr (e : Expr) (he : e.isKnown = true) :
    (renameExpr f e).run none = (mapNames f e, none) := by
  cases e with
  | literal value type => rfl
  | «variable» name type => rfl
  | unary op operand =>
      rw [renameExpr, run_bind_none (run_renameExpr operand he)]
      rfl
  | binary op left right =>
      obtain ⟨hleft, hright⟩ := Bool.and_eq_true_iff.mp he
      rw [renameExpr, run_bind_none (run_renameExpr left hleft),
        run_bind_none (run_renameExpr right hright)]
      rfl
  | use component receiver args =>
      cases receiver with
      | none =>
          rw [renameExpr, run_bind_none (run_renameArgs args he)]
          rfl
      | some receiver =>
          obtain ⟨hreceiver, hargs⟩ := Bool.and_eq_true_iff.mp he
          rw [renameExpr, run_bind_none (run_renameExpr receiver hreceiver),
            run_bind_none (run_renameArgs args hargs)]
          rfl
  | foreign g => cases he

theorem run_renameArgs (args : List Expr) (hargs : argsKnown args = true) :
    (renameArgs f args).run none = (mapNamesEach f args, none) := by
  cases args with
  | nil => rfl
  | cons e rest =>
      obtain ⟨he, hrest⟩ := Bool.and_eq_true_iff.mp hargs
      rw [renameArgs, run_bind_none (run_renameExpr e he),
        run_bind_none (run_renameArgs rest hrest)]
      rfl

end

theorem run_renameTest (test : Test) (htest : test.isKnown = true) :
    (renameTest f test).run none = (mapNamesInTest f test, none) := by
  cases test with
  | concrete e =>
      rw [renameTest, run_bind_none (run_renameExpr f e htest)]
      rfl
  | angelic remembered =>
      cases remembered with
      | none => rfl
      | some e =>
          rw [renameTest, run_bind_none (run_renameExpr f e htest)]
          rfl
  | blank => cases htest
  | unknown => cases htest

theorem run_renameHead (head : LoopHead) :
    (renameHead f head).run none = (mapNamesInHead f head, none) := by
  cases head <;> rfl

mutual

theorem run_renameStmt (s : Stmt) (hs : s.isKnown = true) :
    (renameStmt f s).run none = (mapNamesInStmt f s, none) := by
  cases s with
  | assign indent target value =>
      obtain ⟨htarget, hvalue⟩ := Bool.and_eq_true_iff.mp hs
      rw [renameStmt, run_bind_none (run_renameExpr f target htarget),
        run_bind_none (run_renameExpr f value hvalue)]
      rfl
  | call indent function =>
      rw [renameStmt, run_bind_none (run_renameExpr f function hs)]
      rfl
  | branch indent test body =>
      obtain ⟨htest, hbody⟩ := Bool.and_eq_true_iff.mp hs
      rw [renameStmt, run_bind_none (run_renameTest f test htest),
        run_bind_none (run_renameBlock body hbody)]
      rfl
  | loop indent head test body =>
      obtain ⟨htest, hbody⟩ := Bool.and_eq_true_iff.mp hs
      rw [renameStmt, run_bind_none (run_renameHead f head),
        run_bind_none (run_renameTest f test htest), run_bind_none (run_renameBlock body hbody)]
      rfl
  | foreach indent name type container body =>
      obtain ⟨hcontainer, hbody⟩ := Bool.and_eq_true_iff.mp hs
      rw [renameStmt, run_bind_none (run_change_none name (f name)),
        run_bind_none (run_renameBlock body hbody),
        run_bind_none (run_renameExpr f container hcontainer)]
      rfl
  | foreign g => cases hs

theorem run_renameBlock (body : List Stmt) (hbody : blockKnown body = true) :
    (renameBlock f body).run none = (mapNamesInBlock f body, none) := by
  cases body with
  | nil => rfl
  | cons s rest =>
      obtain ⟨hs, hrest⟩ := Bool.and_eq_true_iff.mp hbody
      rw [renameBlock, run_bind_none (run_renameStmt s hs),
        run_bind_none (run_renameBlock rest hrest)]
      rfl

end

theorem finish_renameNode {n : Node} (hn : nodeKnown n = true) :
    finish (renameNode f n) = (mapNamesInNode f n, none) := by
  cases n with
  | expr e =>
      rw [finish, renameNode, run_bind_none (run_renameExpr f e hn)]
      rfl
  | stmt s =>
      rw [finish, renameNode, run_bind_none (run_renameStmt f s hn)]
      rfl
  | text _ => cases hn
  | absent => cases hn

theorem finish_renameProgram {p : Program} (hp : p.isKnown = true) :
    finish (renameProgram f p) = (mapNamesInProgram f p, none) := by
  obtain ⟨hbody, hresult⟩ := Bool.and_eq_true_iff.mp hp
  have hrun : (renameResult f p.result).run none = (p.result.map (mapNames f), none) := by
    cases h : p.result with
    | none => rfl
    | some e =>
        rw [h] at hresult
        rw [renameResult, run_bind_none (run_renameExpr f e hresult)]
        rfl
  rw [finish, renameProgram, run_bind_none (run_renameBlock f p.statements hbody),
    run_bind_none hrun]
  rfl

mutual

theorem isKnown_mapNames (e : Expr) : (mapNames f e).isKnown = e.isKnown := by
  cases e with
  | literal value type => rfl
  | «variable» name type => rfl
  | unary op operand => exact isKnown_mapNames operand
  | binary op left right =>
      simp only [mapNames, Expr.isKnown, isKnown_mapNames left, isKnown_mapNames right]
  | use component receiver args =>
      cases receiver with
      | none => exact argsKnown_mapNames args
      | some receiver =>
          simp only [mapNames, Expr.isKnown, isKnown_mapNames receiver, argsKnown_mapNames args]
  | foreign g => rfl

theorem argsKnown_mapNames (args : List Expr) :
    argsKnown (mapNamesEach f args) = argsKnown args := by
  cases args with
  | nil => rfl
  | cons e rest =>
      simp only [mapNamesEach, argsKnown, isKnown_mapNames e, argsKnown_mapNames rest]

end

theorem testKnown_mapNames (test : Test) : (mapNamesInTest f test).isKnown = test.isKnown := by
  cases test with
  | concrete e => exact isKnown_mapNames f e
  | angelic remembered =>
      cases remembered with
      | none => rfl
      | some e => exact isKnown_mapNames f e
  | blank => rfl
  | unknown => rfl

mutual

theorem stmtKnown_mapNames (s : Stmt) : (mapNamesInStmt f s).isKnown = s.isKnown := by
  cases s with
  | assign indent target value => simp only [mapNamesInStmt, Stmt.isKnown, isKnown_mapNames]
  | call indent function => exact isKnown_mapNames f function
  | branch indent test body =>
      simp only [mapNamesInStmt, Stmt.isKnown, testKnown_mapNames, blockKnown_mapNames body]
  | loop indent head test body =>
      simp only [mapNamesInStmt, Stmt.isKnown, testKnown_mapNames, blockKnown_mapNames body]
  | foreach indent name type container body =>
      simp only [mapNamesInStmt, Stmt.isKnown, isKnown_mapNames, blockKnown_mapNames body]
  | foreign g => rfl

theorem blockKnown_mapNames (body : List Stmt) :
    blockKnown (mapNamesInBlock f body) = blockKnown body := by
  cases body with
  | nil => rfl
  | cons s rest =>
      simp only [mapNamesInBlock, blockKnown, stmtKnown_mapNames s, blockKnown_mapNames rest]

end

theorem nodeKnown_mapNames (n : Node) : nodeKnown (mapNamesInNode f n) = nodeKnown n := by
  cases n with
  | expr e => exact isKnown_mapNames f e
  | stmt s => exact stmtKnown_mapNames f s
  | text _ => rfl
  | absent => rfl

theorem programKnown_mapNames (p : Program) : (mapNamesInProgram f p).isKnown = p.isKnown := by
  have hresult : (p.result.map (mapNames f)).all (·.isKnown) = p.result.all (·.isKnown) := by
    cases p.result with
    | none => rfl
    | some e => exact isKnown_mapNames f e
  simp only [Program.isKnown, mapNamesInProgram, blockKnown_mapNames, hresult]

end

section

variable (f g : String → String)

mutual

theorem mapNames_comp (e : Expr) : mapNames g (mapNames f e) = mapNames (g ∘ f) e := by
  cases e with
  | literal value type => rfl
  | «variable» name type => rfl
  | unary op operand => simp only [mapNames, mapNames_comp operand]
  | binary op left right => simp only [mapNames, mapNames_comp left, mapNames_comp right]
  | use component receiver args =>
      cases receiver with
      | none => simp only [mapNames, mapNamesEach_comp args]
      | some receiver => simp only [mapNames, mapNames_comp receiver, mapNamesEach_comp args]
  | foreign h => rfl

theorem mapNamesEach_comp (args : List Expr) :
    mapNamesEach g (mapNamesEach f args) = mapNamesEach (g ∘ f) args := by
  cases args with
  | nil => rfl
  | cons e rest => simp only [mapNamesEach, mapNames_comp e, mapNamesEach_comp rest]

end

theorem mapNamesInTest_comp (test : Test) :
    mapNamesInTest g (mapNamesInTest f test) = mapNamesInTest (g ∘ f) test := by
  cases test with
  | concrete e => simp only [mapNamesInTest, mapNames_comp]
  | angelic remembered => cases remembered <;> simp only [mapNamesInTest, mapNames_comp]
  | blank => rfl
  | unknown => rfl

theorem mapNamesInHead_comp (head : LoopHead) :
    mapNamesInHead g (mapNamesInHead f head) = mapNamesInHead (g ∘ f) head := by
  cases head with
  | counting counter declared => rfl
  | testing counter => simp only [mapNamesInHead, Option.map_map]

mutual

theorem mapNamesInStmt_comp (s : Stmt) :
    mapNamesInStmt g (mapNamesInStmt f s) = mapNamesInStmt (g ∘ f) s := by
  cases s with
  | assign indent target value => simp only [mapNamesInStmt, mapNames_comp]
  | call indent function => simp only [mapNamesInStmt, mapNames_comp]
  | branch indent test body =>
      simp only [mapNamesInStmt, mapNamesInTest_comp, mapNamesInBlock_comp body]
  | loop indent head test body =>
      simp only [mapNamesInStmt, mapNamesInHead_comp, mapNamesInTest_comp, mapNamesInBlock_comp body]
  | foreach indent name type container body =>
      simp only [mapNamesInStmt, mapNames_comp, mapNamesInBlock_comp body, Function.comp_apply]
  | foreign h => rfl

theorem mapNamesInBlock_comp (body : List Stmt) :
    mapNamesInBlock g (mapNamesInBlock f body) = mapNamesInBlock (g ∘ f) body := by
  cases body with
  | nil => rfl
  | cons s rest => simp only [mapNamesInBlock, mapNamesInStmt_comp s, mapNamesInBlock_comp rest]

end

theorem mapNamesInNode_comp (n : Node) :
    mapNamesInNode g (mapNamesInNode f n) = mapNamesInNode (g ∘ f) n := by
  cases n with
  | expr e => simp only [mapNamesInNode, mapNames_comp]
  | stmt s => simp only [mapNamesInNode, mapNamesInStmt_comp]
  | text _ => rfl
  | absent => rfl

end

mutual

theorem mapNames_id (e : Expr) : mapNames id e = e := by
  cases e with
  | literal value type => rfl
  | «variable» name type => rfl
  | unary op operand => simp only [mapNames, mapNames_id operand]
  | binary op left right => simp only [mapNames, mapNames_id left, mapNames_id right]
  | use component receiver args =>
      cases receiver with
      | none => simp only [mapNames, mapNamesEach_id args]
      | some receiver => simp only [mapNames, mapNames_id receiver, mapNamesEach_id args]
  | foreign h => rfl

theorem mapNamesEach_id (args : List Expr) : mapNamesEach id args = args := by
  cases args with
  | nil => rfl
  | cons e rest => simp only [mapNamesEach, mapNames_id e, mapNamesEach_id rest]

end

theorem mapNamesInTest_id (test : Test) : mapNamesInTest id test = test := by
  cases test with
  | concrete e => simp only [mapNamesInTest, mapNames_id]
  | angelic remembered => cases remembered <;> simp only [mapNamesInTest, mapNames_id]
  | blank => rfl
  | unknown => rfl

theorem mapNamesInHead_id (head : LoopHead) : mapNamesInHead id head = head := by
  cases head with
  | counting counter declared => rfl
  | testing counter => simp only [mapNamesInHead, Option.map_id, id_eq]

mutual

theorem mapNamesInStmt_id (s : Stmt) : mapNamesInStmt id s = s := by
  cases s with
  | assign indent target value => simp only [mapNamesInStmt, mapNames_id]
  | call indent function => simp only [mapNamesInStmt, mapNames_id]
  | branch indent test body =>
      simp only [mapNamesInStmt, mapNamesInTest_id, mapNamesInBlock_id body]
  | loop indent head test body =>
      simp only [mapNamesInStmt, mapNamesInHead_id, mapNamesInTest_id, mapNamesInBlock_id body]
  | foreach indent name type container body =>
      simp only [mapNamesInStmt, mapNames_id, mapNamesInBlock_id body, id_eq]
  | foreign h => rfl

theorem mapNamesInBlock_id (body : List Stmt) : mapNamesInBlock id body = body := by
  cases body with
  | nil => rfl
  | cons s rest => simp only [mapNamesInBlock, mapNamesInStmt_id s, mapNamesInBlock_id rest]

end

theorem mapNamesInNode_id (n : Node) : mapNamesInNode id n = n := by
  cases n with
  | expr e => simp only [mapNamesInNode, mapNames_id]
  | stmt s => simp only [mapNamesInNode, mapNamesInStmt_id]
  | text _ => rfl
  | absent => rfl

section

variable {f g : String → String}

mutual

theorem mapNames_congr (e : Expr) (h : ∀ name ∈ namesIn e, f name = g name) :
    mapNames f e = mapNames g e := by
  cases e with
  | literal value type => rfl
  | «variable» name type => simp only [mapNames, h name (List.mem_singleton.mpr rfl)]
  | unary op operand => simp only [mapNames, mapNames_congr operand h]
  | binary op left right =>
      obtain ⟨hleft, hright⟩ := List.forall_mem_append.mp h
      simp only [mapNames, mapNames_congr left hleft, mapNames_congr right hright]
  | use component receiver args =>
      cases receiver with
      | none => simp only [mapNames, mapNamesEach_congr args h]
      | some receiver =>
          obtain ⟨hreceiver, hargs⟩ := List.forall_mem_append.mp h
          simp only [mapNames, mapNames_congr receiver hreceiver, mapNamesEach_congr args hargs]
  | foreign k => rfl

theorem mapNamesEach_congr (args : List Expr) (h : ∀ name ∈ namesInEach args, f name = g name) :
    mapNamesEach f args = mapNamesEach g args := by
  cases args with
  | nil => rfl
  | cons e rest =>
      obtain ⟨he, hrest⟩ := List.forall_mem_append.mp h
      simp only [mapNamesEach, mapNames_congr e he, mapNamesEach_congr rest hrest]

end

theorem mapNamesInTest_congr (test : Test) (h : ∀ name ∈ namesInTest test, f name = g name) :
    mapNamesInTest f test = mapNamesInTest g test := by
  cases test with
  | concrete e => simp only [mapNamesInTest, mapNames_congr e h]
  | angelic remembered =>
      cases remembered with
      | none => rfl
      | some e => simp only [mapNamesInTest, mapNames_congr e h]
  | blank => rfl
  | unknown => rfl

theorem mapNamesInHead_congr (head : LoopHead) (h : ∀ name ∈ namesInHead head, f name = g name) :
    mapNamesInHead f head = mapNamesInHead g head := by
  cases head with
  | counting counter declared => simp only [mapNamesInHead, h counter (List.mem_singleton.mpr rfl)]
  | testing counter =>
      cases counter with
      | none => rfl
      | some counter =>
          simp only [mapNamesInHead, Option.map_some, h counter (List.mem_singleton.mpr rfl)]

mutual

theorem mapNamesInStmt_congr (s : Stmt) (h : ∀ name ∈ namesInStmt s, f name = g name) :
    mapNamesInStmt f s = mapNamesInStmt g s := by
  cases s with
  | assign indent target value =>
      obtain ⟨htarget, hvalue⟩ := List.forall_mem_append.mp h
      simp only [mapNamesInStmt, mapNames_congr target htarget, mapNames_congr value hvalue]
  | call indent function => simp only [mapNamesInStmt, mapNames_congr function h]
  | branch indent test body =>
      obtain ⟨htest, hbody⟩ := List.forall_mem_append.mp h
      simp only [mapNamesInStmt, mapNamesInTest_congr test htest, mapNamesInBlock_congr body hbody]
  | loop indent head test body =>
      obtain ⟨hhead, hrest⟩ := List.forall_mem_append.mp h
      obtain ⟨htest, hbody⟩ := List.forall_mem_append.mp hrest
      simp only [mapNamesInStmt, mapNamesInHead_congr head hhead, mapNamesInTest_congr test htest,
        mapNamesInBlock_congr body hbody]
  | foreach indent name type container body =>
      obtain ⟨hname, hrest⟩ := List.forall_mem_cons.mp h
      obtain ⟨hcontainer, hbody⟩ := List.forall_mem_append.mp hrest
      simp only [mapNamesInStmt, hname, mapNames_congr container hcontainer,
        mapNamesInBlock_congr body hbody]
  | foreign k => rfl

theorem mapNamesInBlock_congr (body : List Stmt) (h : ∀ name ∈ namesInBlock body, f name = g name) :
    mapNamesInBlock f body = mapNamesInBlock g body := by
  cases body with
  | nil => rfl
  | cons s rest =>
      obtain ⟨hs, hrest⟩ := List.forall_mem_append.mp h
      simp only [mapNamesInBlock, mapNamesInStmt_congr s hs, mapNamesInBlock_congr rest hrest]

end

theorem mapNamesInNode_congr (n : Node) (h : ∀ name ∈ namesInNode n, f name = g name) :
    mapNamesInNode f n = mapNamesInNode g n := by
  cases n with
  | expr e => simp only [mapNamesInNode, mapNames_congr e h]
  | stmt s => simp only [mapNamesInNode, mapNamesInStmt_congr s h]
  | text _ => rfl
  | absent => rfl

end

end FragmentSynthesis.Proofs.NameImages
