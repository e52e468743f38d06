import FragmentSynthesis.Proofs.RenderedOutlines
import FragmentSynthesis.Weight

namespace FragmentSynthesis.Proofs.PlacedStatements

open FragmentSynthesis.Layout
open FragmentSynthesis.Programs
open FragmentSynthesis.Proofs.RenderedOutlines
open FragmentSynthesis.Proofs.UniqueDecoding
open FragmentSynthesis.Statement
open FragmentSynthesis.StatementText
open FragmentSynthesis.StoppingChanges
open FragmentSynthesis.TypeName
open FragmentSynthesis.UsedNames
open FragmentSynthesis.Weight

mutual

/-- A statement at a depth, and the statements of its block one deeper. -/
def placed (depth : Int) : Stmt → Stmt
  | .assign _ target value => .assign depth target value
  | .call _ function => .call depth function
  | .branch _ test body => .branch depth test (placedBlock (depth + 1) body)
  | .loop _ head test body => .loop depth head test (placedBlock (depth + 1) body)
  | .foreach _ name type container body =>
      .foreach depth name type container (placedBlock (depth + 1) body)
  | .foreign f => .foreign f

def placedBlock (depth : Int) : List Stmt → List Stmt
  | [] => []
  | s :: rest => placed depth s :: placedBlock depth rest

end

/-- A program with its statements at their depths, the outermost ones at depth one. -/
def placedProgram (p : Program) : Program :=
  { p with statements := placedBlock 1 p.statements }

mutual

theorem run_layOut (s : Stmt) (hknown : s.isKnown = true) (depth : Int) :
    (layOut depth s).run none = (placed depth s, none) := by
  cases s with
  | assign indent target value => rfl
  | call indent function => rfl
  | branch indent test body =>
      have hbody := run_layOutBlock body (Bool.and_eq_true_iff.mp hknown).2 (depth + 1)
      rw [layOut, run_bind_none (run_change_none indent depth), run_bind_none hbody]
      rfl
  | loop indent head test body =>
      have hbody := run_layOutBlock body (Bool.and_eq_true_iff.mp hknown).2 (depth + 1)
      rw [layOut, run_bind_none (run_change_none indent depth), run_bind_none hbody]
      rfl
  | foreach indent name type container body =>
      have hbody := run_layOutBlock body (Bool.and_eq_true_iff.mp hknown).2 (depth + 1)
      rw [layOut, run_bind_none (run_change_none indent depth), run_bind_none hbody]
      rfl
  | foreign f => cases hknown

theorem run_layOutBlock (body : List Stmt) (hknown : blockKnown body = true) (depth : Int) :
    (layOutBlock depth body).run none = (placedBlock depth body, none) := by
  cases body with
  | nil => rfl
  | cons s rest =>
      obtain ⟨hs, hrest⟩ := Bool.and_eq_true_iff.mp hknown
      have hfirst := run_layOut s hs depth
      have hothers := run_layOutBlock rest hrest depth
      rw [layOutBlock, run_bind_none hfirst, run_bind_none hothers]
      rfl

end

theorem finish_layOutProgram {p : Program} (hknown : blockKnown p.statements = true) :
    finish (layOutProgram p) = (placedProgram p, none) := by
  rw [finish, layOutProgram, run_bind_none (run_layOutBlock p.statements hknown 1)]
  rfl

mutual

theorem atDepth_placed (s : Stmt) (depth : Int) : AtDepth depth (placed depth s) := by
  cases s with
  | branch indent test body => exact ⟨rfl, blockAtDepth_placed body (depth + 1)⟩
  | loop indent head test body => exact ⟨rfl, blockAtDepth_placed body (depth + 1)⟩
  | foreach indent name type container body => exact ⟨rfl, blockAtDepth_placed body (depth + 1)⟩
  | _ => trivial

theorem blockAtDepth_placed (body : List Stmt) (depth : Int) :
    BlockAtDepth depth (placedBlock depth body) := by
  cases body with
  | nil => trivial
  | cons s rest => exact ⟨atDepth_placed s depth, blockAtDepth_placed rest depth⟩

end

mutual

theorem placed_of_atDepth (s : Stmt) {depth : Int} (h : AtDepth depth s) : placed depth s = s := by
  cases s with
  | assign indent target value => rw [placed, show indent = depth from h]
  | call indent function => rw [placed, show indent = depth from h]
  | branch indent test body =>
      obtain ⟨rfl, hbody⟩ := h
      rw [placed, placedBlock_of_atDepth body hbody]
  | loop indent head test body =>
      obtain ⟨rfl, hbody⟩ := h
      rw [placed, placedBlock_of_atDepth body hbody]
  | foreach indent name type container body =>
      obtain ⟨rfl, hbody⟩ := h
      rw [placed, placedBlock_of_atDepth body hbody]
  | foreign f => rfl

theorem placedBlock_of_atDepth (body : List Stmt) {depth : Int} (h : BlockAtDepth depth body) :
    placedBlock depth body = body := by
  cases body with
  | nil => rfl
  | cons s rest =>
      rw [placedBlock, placed_of_atDepth s h.1, placedBlock_of_atDepth rest h.2]

end

theorem placedProgram_placedProgram (p : Program) :
    placedProgram (placedProgram p) = placedProgram p := by
  have hdepth := blockAtDepth_placed p.statements 1
  rw [placedProgram, placedProgram, placedBlock_of_atDepth _ hdepth]

/-- Two statements measure the same, whatever their depths. -/
structure SameMeasures (s s' : Stmt) : Prop where
  known : s'.isKnown = s.isKnown
  encoding : encodeStmt s' = encodeStmt s
  weight : weightOfStmt s' = weightOfStmt s
  names : ∀ withCounters, usedNamesInStmt withCounters s' = usedNamesInStmt withCounters s
  openTests : openTests s' = openTests s

/-- Two blocks have one encoding and the same measures. -/
structure SameBlockMeasures (body body' : List Stmt) : Prop where
  known : blockKnown body' = blockKnown body
  encoding : encodeBlock body' = encodeBlock body
  weight : weightOfBlock body' = weightOfBlock body
  names : ∀ withCounters, usedNamesInBlock withCounters body' = usedNamesInBlock withCounters body
  openTests : openTestsInBlock body' = openTestsInBlock body

/-- Two programs measure the same. -/
structure SameProgramMeasures (p q : Program) : Prop where
  encoding : encodeProgram q = encodeProgram p
  weight : weightOfProgram q = weightOfProgram p
  names : ∀ withCounters, usedVariables withCounters q = usedVariables withCounters p
  openTests : angelicCount q = angelicCount p

mutual

theorem sameMeasures_placed (s : Stmt) (depth : Int) : SameMeasures s (placed depth s) := by
  cases s with
  | assign indent target value => exact ⟨rfl, rfl, rfl, fun _ => rfl, rfl⟩
  | call indent function => exact ⟨rfl, rfl, rfl, fun _ => rfl, rfl⟩
  | branch indent test body =>
      obtain ⟨hknown, hcode, hweight, hnames, hopen⟩ := sameMeasures_placedBlock body (depth + 1)
      constructor
      · simp only [placed, Stmt.isKnown, hknown]
      · simp only [placed, encodeStmt, hcode]
      · simp only [placed, weightOfStmt, hweight]
      · intro withCounters
        simp only [placed, usedNamesInStmt, hnames]
      · simp only [placed, openTests, hopen]
  | loop indent head test body =>
      obtain ⟨hknown, hcode, hweight, hnames, hopen⟩ := sameMeasures_placedBlock body (depth + 1)
      constructor
      · simp only [placed, Stmt.isKnown, hknown]
      · simp only [placed, encodeStmt, hcode]
      · simp only [placed, weightOfStmt, hweight]
      · intro withCounters
        simp only [placed, usedNamesInStmt, hnames]
      · simp only [placed, openTests, hopen]
  | foreach indent name type container body =>
      obtain ⟨hknown, hcode, hweight, hnames, hopen⟩ := sameMeasures_placedBlock body (depth + 1)
      constructor
      · simp only [placed, Stmt.isKnown, hknown]
      · simp only [placed, encodeStmt, hcode]
      · simp only [placed, weightOfStmt, hweight]
      · intro withCounters
        simp only [placed, usedNamesInStmt, hnames]
      · simp only [placed, openTests, hopen]
  | foreign f => exact ⟨rfl, rfl, rfl, fun _ => rfl, rfl⟩

theorem sameMeasures_placedBlock (body : List Stmt) (depth : Int) :
    SameBlockMeasures body (placedBlock depth body) := by
  cases body with
  | nil => exact ⟨rfl, rfl, rfl, fun _ => rfl, rfl⟩
  | cons s rest =>
      obtain ⟨hknown, hcode, hweight, hnames, hopen⟩ := sameMeasures_placed s depth
      obtain ⟨hknown', hcode', hweight', hnames', hopen'⟩ := sameMeasures_placedBlock rest depth
      constructor
      · simp only [placedBlock, blockKnown, hknown, hknown']
      · simp only [placedBlock, encodeBlock, hcode, hcode']
      · simp only [placedBlock, weightOfBlock, hweight, hweight']
      · intro withCounters
        simp only [placedBlock, usedNamesInBlock, hnames, hnames']
      · simp only [placedBlock, openTestsInBlock, hopen, hopen']

end

theorem weightOfTop_placedBlock (body : List Stmt) (depth : Int) :
    weightOfTop (placedBlock depth body) = weightOfTop body := by
  have hfirst (s : Stmt) : weightAtTop (placed depth s) = weightAtTop s := by
    cases s with
    | foreign f => rfl
    | _ => exact (sameMeasures_placed _ depth).weight
  induction body with
  | nil => rfl
  | cons s rest ih => rw [placedBlock, weightOfTop, weightOfTop, hfirst, ih]

theorem sameMeasures_placedProgram (p : Program) : SameProgramMeasures p (placedProgram p) := by
  have hblock := sameMeasures_placedBlock p.statements 1
  constructor
  · simp only [placedProgram, encodeProgram, hblock.encoding]
  · simp only [placedProgram, weightOfProgram, weightOfTop_placedBlock]
  · intro withCounters
    simp only [placedProgram, usedVariables, hblock.names]
  · exact hblock.openTests

mutual

theorem exists_renderStmt_placed (style : NameStyle) (s : Stmt) (depth : Int) {text : String}
    (h : renderStmt style s = .ok text) :
    ∃ text', renderStmt style (placed depth s) = .ok text' := by
  cases s with
  | assign indent target value =>
      obtain ⟨name, hname, h⟩ := ok_of_bind h
      obtain ⟨shown, hvalue, -⟩ := ok_of_bind h
      rw [placed, renderStmt, hname, hvalue]
      exact ⟨_, rfl⟩
  | call indent function =>
      obtain ⟨shown, hfunction, -⟩ := ok_of_bind h
      rw [placed, renderStmt, hfunction]
      exact ⟨_, rfl⟩
  | branch indent test body =>
      obtain ⟨shown, htest, h⟩ := ok_of_bind h
      obtain ⟨block, hblock, -⟩ := ok_of_bind h
      obtain ⟨block', hblock'⟩ := exists_renderBlock_placedBlock style body (depth + 1) hblock
      rw [placed, renderStmt, htest, hblock']
      exact ⟨_, rfl⟩
  | loop indent head test body =>
      obtain ⟨shown, htest, h⟩ := ok_of_bind h
      obtain ⟨block, hblock, -⟩ := ok_of_bind h
      obtain ⟨block', hblock'⟩ := exists_renderBlock_placedBlock style body (depth + 1) hblock
      rw [placed, renderStmt, htest, hblock']
      exact ⟨_, rfl⟩
  | foreach indent name type container body =>
      obtain ⟨shown, hcontainer, h⟩ := ok_of_bind h
      obtain ⟨block, hblock, -⟩ := ok_of_bind h
      obtain ⟨block', hblock'⟩ := exists_renderBlock_placedBlock style body (depth + 1) hblock
      rw [placed, renderStmt, hcontainer, hblock']
      exact ⟨_, rfl⟩
  | foreign f => exact ⟨text, h⟩

theorem exists_renderBlock_placedBlock (style : NameStyle) (body : List Stmt) (depth : Int)
    {text : String} (h : renderBlock style body = .ok text) :
    ∃ text', renderBlock style (placedBlock depth body) = .ok text' := by
  cases body with
  | nil => exact ⟨text, h⟩
  | cons s rest =>
      obtain ⟨first, hfirst, h⟩ := ok_of_bind h
      obtain ⟨others, hothers, -⟩ := ok_of_bind h
      obtain ⟨first', hfirst'⟩ := exists_renderStmt_placed style s depth hfirst
      obtain ⟨others', hothers'⟩ := exists_renderBlock_placedBlock style rest depth hothers
      rw [placedBlock, renderBlock, hfirst', hothers']
      exact ⟨_, rfl⟩

end

/-- The block of a statement that has one. -/
def block? : Stmt → Option (List Stmt)
  | .branch _ _ body => some body
  | .loop _ _ _ body => some body
  | .foreach _ _ _ _ body => some body
  | _ => none

mutual

/-- A statement and all statements in it, each with the number of blocks around it, where the
statement itself stands in a given number of blocks. -/
def nesting (enclosing : Nat) : Stmt → List (Nat × Stmt)
  | .branch indent test body =>
      (enclosing, .branch indent test body) :: nestingOfBlock (enclosing + 1) body
  | .loop indent head test body =>
      (enclosing, .loop indent head test body) :: nestingOfBlock (enclosing + 1) body
  | .foreach indent name type container body =>
      (enclosing, .foreach indent name type container body) :: nestingOfBlock (enclosing + 1) body
  | .assign indent target value => [(enclosing, .assign indent target value)]
  | .call indent function => [(enclosing, .call indent function)]
  | .foreign f => [(enclosing, .foreign f)]

def nestingOfBlock (enclosing : Nat) : List Stmt → List (Nat × Stmt)
  | [] => []
  | s :: rest => nesting enclosing s ++ nestingOfBlock enclosing rest

end

mutual

theorem indent_of_nesting (s : Stmt) (hknown : s.isKnown = true) (enclosing : Nat)
    (h : AtDepth (enclosing + 1) s) :
    ∀ entry ∈ nesting enclosing s, entry.2.indent = entry.1 + 1 := by
  cases s with
  | assign indent target value => exact List.forall_mem_singleton.mpr h
  | call indent function => exact List.forall_mem_singleton.mpr h
  | branch indent test body =>
      have hbody := indent_of_nestingOfBlock body (Bool.and_eq_true_iff.mp hknown).2
        (enclosing + 1) h.2
      exact List.forall_mem_cons.mpr ⟨h.1, hbody⟩
  | loop indent head test body =>
      have hbody := indent_of_nestingOfBlock body (Bool.and_eq_true_iff.mp hknown).2
        (enclosing + 1) h.2
      exact List.forall_mem_cons.mpr ⟨h.1, hbody⟩
  | foreach indent name type container body =>
      have hbody := indent_of_nestingOfBlock body (Bool.and_eq_true_iff.mp hknown).2
        (enclosing + 1) h.2
      exact List.forall_mem_cons.mpr ⟨h.1, hbody⟩
  | foreign f => cases hknown

theorem indent_of_nestingOfBlock (body : List Stmt) (hknown : blockKnown body = true)
    (enclosing : Nat) (h : BlockAtDepth (enclosing + 1) body) :
    ∀ entry ∈ nestingOfBlock enclosing body, entry.2.indent = entry.1 + 1 := by
  cases body with
  | nil => exact List.forall_mem_nil _
  | cons s rest =>
      obtain ⟨hs, hrest⟩ := Bool.and_eq_true_iff.mp hknown
      exact List.forall_mem_append.mpr
        ⟨indent_of_nesting s hs enclosing h.1, indent_of_nestingOfBlock rest hrest enclosing h.2⟩

end

end FragmentSynthesis.Proofs.PlacedStatements
