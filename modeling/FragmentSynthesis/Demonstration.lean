import FragmentSynthesis.Layout
import FragmentSynthesis.Outcomes
import FragmentSynthesis.Splicing

namespace FragmentSynthesis.Demonstration

open FragmentSynthesis.Binary64
open FragmentSynthesis.Blank
open FragmentSynthesis.CatalogDocument
open FragmentSynthesis.Catalogs
open FragmentSynthesis.Components
open FragmentSynthesis.Corpora
open FragmentSynthesis.DecimalText
open FragmentSynthesis.Expression
open FragmentSynthesis.Faults
open FragmentSynthesis.FieldReading
open FragmentSynthesis.Layout
open FragmentSynthesis.Matching
open FragmentSynthesis.Operators
open FragmentSynthesis.OrderedMaps
open FragmentSynthesis.Outcomes
open FragmentSynthesis.Programs
open FragmentSynthesis.QuotedText
open FragmentSynthesis.Scopes
open FragmentSynthesis.Sessions
open FragmentSynthesis.Splicing
open FragmentSynthesis.Statement
open FragmentSynthesis.StatementText
open FragmentSynthesis.StoppingChanges
open FragmentSynthesis.Stopwatches
open FragmentSynthesis.Tasks
open FragmentSynthesis.TokenTables
open FragmentSynthesis.TypeName
open FragmentSynthesis.Weight

/-- A program with all its statements at their depth; a fault of the layout is one of its own. -/
def laidOut (p : Program) : Except Fault Program :=
  match finish (layOutProgram p) with
  | (p, none) => .ok p
  | (_, some fault) => .error fault

/-- Sums an array up in a loop over its elements. -/
def sumArray : Except Fault Program := do
  let array := Expr.variable "arr" "int[]"
  let sum := Expr.variable "r" int
  let element := Expr.variable "x" int
  let p := Program.new "sumArray" int (OrderedMap.ofList [("arr", "int[]")])
  let scope ← p.scope.addLocal "r" int
  let scope ← scope.addElement "x" int
  let body := [Stmt.assign 1 sum (.binary .add sum element)]
  laidOut { p with
    scope := scope
    statements := [.foreach 1 "x" int array body]
    result := some sum }

/-- The first component of a kind in a catalog. -/
def firstOfKind (catalog : Catalog) (kind : Kind) : Except Fault Component :=
  match catalog.components.find? fun c => c.kind == kind with
  | some c => .ok c
  | none => .error .nothingFound

/-- Finds the largest element of an array in a counting loop whose test is open but remembers the
bound. Its components come from a catalog. -/
def maxArray (catalog : Catalog) : Except Fault Program := do
  let max ← match catalog.find (some "java.lang.Math") (some "max") with
    | c :: _ => pure c
    | [] => throw .outOfRange
  let get ← firstOfKind catalog .arrayGet
  let length ← firstOfKind catalog .arrayLength
  let numbers := Expr.variable "nums" "int[]"
  let best := Expr.variable "best" int
  let i := Expr.variable "i" int
  let p := Program.new "maxArray" int (OrderedMap.ofList [("nums", "int[]")])
  let scope ← p.scope.addLocal "best" int
  let scope ← scope.addCounter "i" true
  let element ← useComponent get none [numbers, i]
  let larger ← useComponent max none [best, element]
  let bound ← useComponent length none [numbers]
  let body := [Stmt.assign 1 best larger]
  laidOut { p with
    scope := scope
    statements := [.loop 1 (.counting "i" true) (.angelic (some (.binary .lt i bound))) body]
    result := some best }

/-- A map of names written on one line. -/
def describeRenames (renames : OrderedMap String String) : String :=
  "\x7b" ++ ", ".intercalate (renames.entries.map fun entry =>
    quoted entry.1 ++ ": " ++ quoted entry.2) ++ "\x7d"

/-- Builds a catalog from a document and logs what became of its records. -/
def loadCatalog (d : Document) : SessionM Catalog := do
  let b := load TokenTable.empty d
  logBuild b
  raiseIfAny b.fault
  return b.catalog

def rule : String := String.ofList (List.replicate 50 '=')

/-- Lists components by token and sort key, which only those with names have. -/
def printComponents : List Component → SessionM Unit
  | [] => return ()
  | c :: rest => do
      let c ← c.named
      printLine ("   " ++ padLeft 3 c.token ++ "  " ++ c.sortKey)
      printComponents rest

/-- Lists the usefulness of fragments for a program, each with its text. -/
def printScores (target : Program) : List Node → SessionM Unit
  | [] => return ()
  | fragment :: rest => do
      let x ← usefulness fragment target
      let text ← renderHere fragment
      printLine ("   " ++ fixed 2 x ++ "  " ++ trim text)
      printScores target rest

/-- Prints the report of the timers of the session, if there is anything to report. -/
def printTimers (lines : List String) : SessionM Unit := do
  if lines.isEmpty then return ()
  printLine "------------------------------\n\nTiming breakdown:\n"
  lines.forM printLine

/-- The lines that a stopwatch reports, none while timing is off. -/
def reportOf (w : Stopwatch) : SessionM (List String) := do
  if (← settings).logTiming then w.report else return []

/-- Remembers a program, whose faults are those of the computation. -/
def remembered (corpus : Corpus) (p : Program) : SessionM Corpus :=
  match corpus.remember p with
  | (corpus, .ok _) => return corpus
  | (_, .error fault) => throw fault

/-- Takes the first statement of a program over into another one. -/
def spliceFirst (known target : Program) :
    SessionM (OrderedMap String String × Program) := do
  match known.statements with
  | [] => throw .outOfRange
  | s :: _ =>
      let f := fit pickFirst OrderedMap.empty target (.stmt s)
      raiseIfAny f.fault
      match f.fragment with
      | .stmt s => return (f.renames, ← laidOut (f.program.addStatement s))
      | _ => throw .missingPart

/-- The whole demonstration on a catalog, settings and a task: components are shown, two programs
are built by hand, and the fragments of one are scored for the other and spliced into it. -/
def demonstrate (catalogSource settingsSource taskSource : Document) : SessionM Unit := do
  loadSettings settingsSource
  let task ← Task.load taskSource
  startTimer "Total"
  let started ← timeOfDay
  printLine "🔧 Fragment Usefulness Demo"
  printLine rule
  let catalog ← loadCatalog catalogSource
  printLine ("📝 Loaded " ++ toString catalog.size ++ " components (" ++ toString catalog.skipped
    ++ " skipped)")
  printComponents catalog.components
  let known ← sumArray
  let corpus ← remembered Corpus.empty known
  let knownSize ← weightOfProgram known
  printLine ("\n📚 Mined " ++ toString corpus.size ++ " fragments from " ++ known.name ++ " (size "
    ++ toString knownSize ++ "):")
  printLine (← renderProgramHere known)
  let target ← maxArray catalog
  let targetSize ← weightOfProgram target
  let openTests ← angelicCount target
  printLine ("🎯 Target program (size " ++ toString targetSize ++ ", " ++ toString openTests
    ++ " angelic):")
  printLine (← renderProgramHere target)
  printScores target corpus.all
  let mean ← corpusUsefulness corpus target
  printLine ("   mean usefulness: " ++ fixed 3 mean)
  let (renames, target) ← spliceFirst known target
  printLine ("\n🧩 Merged loop with renames " ++ describeRenames renames ++ ":")
  printLine (← renderProgramHere target)
  stopTimer "Total"
  let now ← timeOfDay
  let outcome ← summarize task (some target) (.measured (sub now started)) (some corpus)
    { SearchStats.zero with generated := 1, ran := 1 } "" 0
  printOutcome outcome
  printTimers (← reportOf (← get).stopwatch)

end FragmentSynthesis.Demonstration
