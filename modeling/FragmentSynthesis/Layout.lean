import FragmentSynthesis.Programs
import FragmentSynthesis.StoppingChanges

namespace FragmentSynthesis.Layout

open FragmentSynthesis.Faults
open FragmentSynthesis.Programs
open FragmentSynthesis.Statement
open FragmentSynthesis.StoppingChanges

mutual

/-- Moves a statement to a depth and the statements of its block one deeper. -/
def layOut (depth : Int) : Stmt → Stopping Stmt
  | .assign indent target value => do
      let indent ← change indent depth
      return .assign indent target value
  | .call indent function => do
      let indent ← change indent depth
      return .call indent function
  | .branch indent test body => do
      let indent ← change indent depth
      let body ← layOutBlock (depth + 1) body
      return .branch indent test body
  | .loop indent head test body => do
      let indent ← change indent depth
      let body ← layOutBlock (depth + 1) body
      return .loop indent head test body
  | .foreach indent name type container body => do
      let indent ← change indent depth
      let body ← layOutBlock (depth + 1) body
      return .foreach indent name type container body
  | .foreign (.pass indent) => do
      let indent ← change indent depth
      stop (.unknownNode (ForeignStmt.pass indent).kindName .body)
      return .foreign (.pass indent)
  | .foreign (.expression e) => do
      stop (.unknownNode e.kindName .body)
      return .foreign (.expression e)
  | .foreign (.other kind) => do
      stop .missingPart
      return .foreign (.other kind)

def layOutBlock (depth : Int) : List Stmt → Stopping (List Stmt)
  | [] => return []
  | s :: rest => do
      let s ← layOut depth s
      let rest ← layOutBlock depth rest
      return s :: rest

end

/-- A program with every statement at its depth. -/
def layOutProgram (p : Program) : Stopping Program := do
  let statements ← layOutBlock 1 p.statements
  return { p with statements := statements }

end FragmentSynthesis.Layout
