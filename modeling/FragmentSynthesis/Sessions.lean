import FragmentSynthesis.CatalogDocument
import FragmentSynthesis.Configuration
import FragmentSynthesis.Corpora
import FragmentSynthesis.PairwiseSum
import FragmentSynthesis.Stopwatches

/-!
What one run of synthesis has in common: the settings, the timers of the run, the clocks, what
was logged and what was printed. A fault ends a computation; the changes made before it remain.
-/

namespace FragmentSynthesis.Sessions

open FragmentSynthesis.Binary64
open FragmentSynthesis.Blank
open FragmentSynthesis.CatalogDocument
open FragmentSynthesis.Catalogs
open FragmentSynthesis.Components
open FragmentSynthesis.Configuration
open FragmentSynthesis.Corpora
open FragmentSynthesis.DecimalText
open FragmentSynthesis.Faults
open FragmentSynthesis.FieldReading
open FragmentSynthesis.Matching
open FragmentSynthesis.Programs
open FragmentSynthesis.Statement
open FragmentSynthesis.StatementText
open FragmentSynthesis.Stopwatches
open FragmentSynthesis.TypeName

/-- How much a message matters. -/
inductive Level
  | debug
  | info
  | warning
  deriving DecidableEq

def Level.name : Level → String
  | .debug => "DEBUG"
  | .info => "INFO"
  | .warning => "WARNING"

structure LogEntry where
  level : Level
  message : String

/-- Readings of the time of day to come, the last of which stays. -/
structure WallClock where
  readings : List Double
  last : Double

/-- The time of day, and the clock after it was read. -/
def WallClock.read (c : WallClock) : Double × WallClock :=
  match c.readings with
  | r :: rest => (r, ⟨rest, r⟩)
  | [] => (c.last, c)

/-- The state that the computations of a run share. -/
structure Session where
  settings : Settings
  stopwatch : Stopwatch
  clock : Clock
  wall : WallClock
  /-- Latest first. -/
  log : List LogEntry
  /-- Latest first. -/
  output : List String

/-- A session before it did anything, with the readings that its clocks will give. -/
def Session.initial (readings : List Int) (wall : List Double) : Session where
  settings := Settings.initial
  stopwatch := Stopwatch.new false
  clock := ⟨readings, 0⟩
  wall := ⟨wall, zero false⟩
  log := []
  output := []

/-- A computation in a session. Its changes remain when it ends with a fault. -/
abbrev SessionM := ExceptT Fault (StateM Session)

def settings : SessionM Settings :=
  return (← get).settings

/-- Logs a message. -/
def write (level : Level) (message : String) : SessionM Unit :=
  modify fun s => { s with log := ⟨level, message⟩ :: s.log }

def print (text : String) : SessionM Unit :=
  modify fun s => { s with output := text :: s.output }

def printLine (text : String) : SessionM Unit :=
  print (text ++ "\n")

/-- All that was printed. -/
def Session.printed (s : Session) : String :=
  "".intercalate s.output.reverse

/-- Ends with a fault, if there is one. -/
def raiseIfAny : Option Fault → SessionM Unit
  | none => return ()
  | some fault => throw fault

/-- Reads the time of day. -/
def timeOfDay : SessionM Double := do
  let s ← get
  let (now, wall) := s.wall.read
  set { s with wall := wall }
  return now

/-- Runs an operation on a stopwatch, which does nothing while timing is off, and warns. -/
def tick (w : Stopwatch) (operation : Stopwatch → Clock → Tick) :
    SessionM (Stopwatch × Option Fault) := do
  let s ← get
  if s.settings.logTiming then
    let t := operation w s.clock
    set { s with clock := t.clock }
    match t.warning with
    | some warning => write .warning warning
    | none => pure ()
    return (t.watch, t.fault)
  else return (w, none)

/-- Runs an operation on the stopwatch of the session. -/
def tickGlobal (operation : Stopwatch → Clock → Tick) : SessionM Unit := do
  let (w, fault) ← tick (← get).stopwatch operation
  modify fun s => { s with stopwatch := w }
  raiseIfAny fault

def startTimer (name : String) : SessionM Unit :=
  tickGlobal fun w clock => w.start clock name

def stopTimer (name : String) : SessionM Unit :=
  tickGlobal fun w clock => w.stop clock name

/-- Runs a computation and then a final one, whether the first succeeds or not. A fault of the
final one comes before that of the first. -/
def thenAlways {α : Type} (body : SessionM α) (final : SessionM Unit) : SessionM α := do
  let result ← ExceptT.lift body.run
  final
  match result with
  | .ok a => return a
  | .error fault => throw fault

/-- Times a computation with a timer of the session. -/
def timed {α : Type} (name : String) (body : SessionM α) : SessionM α := do
  startTimer name
  thenAlways body (stopTimer name)

/-- Switches simple names on or off. -/
def setSimpleName (flag : Bool) : SessionM Unit :=
  modify fun s => { s with settings := { s.settings with useSimpleName := flag } }

/-- Runs a computation with simple names on or off and then goes back to what was before. -/
def withSimpleNames {α : Type} (flag : Bool) (body : SessionM α) : SessionM α := do
  let before := (← settings).useSimpleName
  setSimpleName flag
  thenAlways body (setSimpleName before)

/-- Changes the settings of the session and raises the fault of the change, if there is one. -/
def changeSettings (change : Settings → Settings × Option Fault) : SessionM Unit := do
  let s ← get
  let (settings, fault) := change s.settings
  set { s with settings := settings }
  raiseIfAny fault

/-- Changes settings one by one, as assignments are validated. -/
def configureWith (assigned : Validation) (fields : Fields) : SessionM Unit :=
  changeSettings fun s => s.configure assigned fields

/-- Loads settings from a document, under the validations of constructed and of assigned settings.
-/
def loadSettingsWith (constructed assigned : Validation) (d : Document) : SessionM Unit :=
  changeSettings fun s => s.load constructed assigned d

def configure (fields : Fields) : SessionM Unit :=
  configureWith readField fields

def loadSettings (d : Document) : SessionM Unit :=
  loadSettingsWith readField readField d

/-- Prints a node in the style that the settings ask for. -/
def renderHere (node : Node) : SessionM String := do
  renderNode (← settings).nameStyle node

/-- Prints a program in the style that the settings ask for. -/
def renderProgramHere (p : Program) : SessionM String := do
  renderProgram (← settings).nameStyle p

/-- Tells of the records whose components were skipped. -/
def logVerdict : Verdict → SessionM Unit
  | .skipped c => write .debug ("Skipping non-instantiable component " ++ c.describe)
  | _ => return ()

/-- Tells what became of the records of a catalog and, if it was completed, its size. -/
def logBuild (b : Build) : SessionM Unit := do
  b.verdicts.forM logVerdict
  match b.fault with
  | none =>
      write .info ("Component catalog: " ++ toString b.catalog.size ++ " components, "
        ++ toString b.catalog.skipped ++ " skipped")
  | some _ => return ()

/-- What a trace calls a fragment. -/
def fragmentSort : Node → String
  | .stmt _ => "Statement"
  | _ => "Expression"

/-- The usefulness of one fragment, which is traced when the settings are verbose. -/
def score (p : Program) (fragment : Node) : SessionM Double := do
  let x ← usefulness fragment p
  if 2 < (← settings).verbose then
    let text ← renderHere fragment
    write .info ("Fragment " ++ fragmentSort fragment ++ ": " ++ trim text ++ ", usefulness: "
      ++ shortest x)
  return x

def scoreAll (p : Program) : List Node → SessionM (List Double)
  | [] => return []
  | fragment :: rest => do
      let x ← score p fragment
      let xs ← scoreAll p rest
      return x :: xs

def timerName : String := "Fragment usefulness"

/-- The mean usefulness of fragments for a program, zero if there are none. -/
def meanUsefulness (fragments : List Node) (p : Program) : SessionM Double := do
  if fragments.isEmpty then return zero false
  let scores ← timed timerName do
    if 2 < (← settings).verbose then
      let text ← renderProgramHere p
      write .info ("Computing usefulness to program:\n" ++ text)
    scoreAll p fragments
  return PairwiseSum.mean scores

/-- The mean usefulness of all fragments of a corpus for a program. -/
def corpusUsefulness (corpus : Corpus) (p : Program) : SessionM Double :=
  meanUsefulness corpus.all p

end FragmentSynthesis.Sessions
