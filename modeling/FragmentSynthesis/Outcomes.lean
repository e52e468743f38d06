import FragmentSynthesis.Sessions
import FragmentSynthesis.Tasks

namespace FragmentSynthesis.Outcomes

open FragmentSynthesis.Binary64
open FragmentSynthesis.Blank
open FragmentSynthesis.Configuration
open FragmentSynthesis.Corpora
open FragmentSynthesis.DecimalText
open FragmentSynthesis.Faults
open FragmentSynthesis.Programs
open FragmentSynthesis.Sessions
open FragmentSynthesis.Stopwatches
open FragmentSynthesis.Tasks
open FragmentSynthesis.Values
open FragmentSynthesis.Weight

/-- How many programs the search generated and ran. -/
structure SearchStats where
  generated : Int
  ran : Int
  angelicGenerated : Int
  angelicRan : Int
  concreteGenerated : Int
  concreteRan : Int

def SearchStats.zero : SearchStats := ⟨0, 0, 0, 0, 0, 0⟩

/-- The name of the algorithm that the two main settings select. -/
def algorithmLabel (mineFragments useAngelicConditions : Bool) : String :=
  match mineFragments, useAngelicConditions with
  | true, true => "FrAngel"
  | true, false => "Fragments"
  | false, true => "Angelic"
  | false, false => "Baseline"

/-- How many seconds an attempt took: a whole number, however large, or a double. -/
inductive Elapsed
  | whole (n : Int)
  | measured (x : Double)
  deriving DecidableEq

/-- Seconds as a double, which a whole number may be too large for. -/
def Elapsed.toDouble : Elapsed → Except Fault Double
  | .whole n => asDouble n
  | .measured x => .ok x

/-- The report on one attempt at synthesis. -/
structure Outcome where
  name : String
  success : Bool
  time : Elapsed
  program : String
  simpleProgram : String
  group : Option String
  numExamples : Nat
  numComponents : Nat
  programSize : Nat
  sypetMode : Bool
  tags : List String
  algorithm : String
  uncleanedProgram : String
  uncleanedProgramSize : Int
  numRememberedPrograms : Nat
  numFragments : Nat
  averageFragmentUsefulness : Double
  stats : SearchStats

/-- A program, if there is one, in the current style. -/
def programText : Option Program → SessionM String
  | none => return ""
  | some p => renderProgramHere p

/-- How many programs and fragments the corpus holds, and its mean usefulness. Without a corpus,
or when fragments are not mined, all are zero. -/
def corpusFigures (corpus : Option Corpus) (p : Option Program) :
    SessionM (Nat × Nat × Double) := do
  match corpus with
  | none => return (0, 0, zero false)
  | some corpus =>
      if !(← settings).mineFragments then return (0, 0, zero false)
      let mean ← match p with
        | none => pure (zero false)
        | some p => corpusUsefulness corpus p
      return (corpus.programs.length, corpus.all.length, mean)

/-- The weight of the program that was found, zero if there is none. -/
def programWeight : Option Program → SessionM Nat
  | none => return 0
  | some p => weightOfProgram p

/-- Summarizes an attempt. The program is shown in full and with simple names, whatever the
settings say, and they are as before afterwards. -/
def summarize (task : Task) (p : Option Program) (elapsed : Elapsed) (corpus : Option Corpus)
    (stats : SearchStats) (uncleanedProgram : String) (uncleanedProgramSize : Int) :
    SessionM Outcome := do
  let qualified ← withSimpleNames false (programText p)
  let simple ← withSimpleNames true (programText p)
  let (remembered, fragments, mean) ← corpusFigures corpus p
  let size ← programWeight p
  let s ← settings
  return {
    name := task.name
    success := p.isSome
    time := elapsed
    program := qualified
    simpleProgram := simple
    group := task.group
    numExamples := task.numExamples
    numComponents := task.numComponents
    programSize := size
    sypetMode := s.sypetMode
    tags := task.tags.map Tag.name
    algorithm := algorithmLabel s.mineFragments s.useAngelicConditions
    uncleanedProgram := uncleanedProgram
    uncleanedProgramSize := uncleanedProgramSize
    numRememberedPrograms := remembered
    numFragments := fragments
    averageFragmentUsefulness := mean
    stats := stats }

/-- The lines with the counts of the search. -/
def countLines (s : SearchStats) : List String :=
  ["All programs:     generated " ++ toString s.generated ++ ", ran " ++ toString s.ran,
    "Only non-angelic: generated " ++ toString s.concreteGenerated ++ ", ran "
      ++ toString s.concreteRan,
    "Only angelic:     generated " ++ toString s.angelicGenerated ++ ", ran "
      ++ toString s.angelicRan]

/-- The report of an attempt, with the counts of the search if it is verbose. The time is shown as
a double. -/
def Outcome.format (verbose : Nat) (o : Outcome) : Except Fault String := do
  let time ← o.time.toDouble
  return "\n".intercalate
    (["Name: " ++ o.name]
      ++ (match o.group with
        | some group => ["Group: " ++ group]
        | none => [])
      ++ ["Success: " ++ boolName o.success,
        "Time: " ++ fixed 3 time ++ " sec",
        "# Examples: " ++ toString o.numExamples,
        "# Components: " ++ toString o.numComponents]
      ++ (if o.success then ["Program Size: " ++ toString o.programSize] else [])
      ++ (if 1 < verbose then countLines o.stats else [])
      ++ (if o.success then [trimEndLines o.program] else [])) ++ "\n"

/-- Prints a report, as verbose as the settings ask for. -/
def printOutcome (o : Outcome) : SessionM Unit := do
  let report ← o.format (← settings).verbose
  printLine report

end FragmentSynthesis.Outcomes
