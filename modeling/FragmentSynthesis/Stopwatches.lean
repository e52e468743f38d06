import FragmentSynthesis.DecimalText
import FragmentSynthesis.Faults
import FragmentSynthesis.NameSets
import FragmentSynthesis.OrderedMaps

namespace FragmentSynthesis.Stopwatches

open FragmentSynthesis.Binary64
open FragmentSynthesis.DecimalText
open FragmentSynthesis.Faults
open FragmentSynthesis.NameSets
open FragmentSynthesis.OrderedMaps

/-- The readings to come, and the last one. When none is left, each reading is one microsecond
after the last. -/
structure Clock where
  readings : List Int
  last : Int

/-- The time in nanoseconds, and the clock after it was read. Without readings a clock goes on by a
microsecond. -/
def Clock.read (c : Clock) : Int × Clock :=
  match c.readings with
  | r :: rest => (r, ⟨rest, r⟩)
  | [] => (c.last + 1000, ⟨[], c.last + 1000⟩)

/-- Timers by name: the sums of their finished spans, when they were last started, which of them
run, and the time that timing took. -/
structure Stopwatch where
  /-- A careful one warns of timers that are started twice or stopped while they do not run. -/
  careful : Bool
  totals : OrderedMap String Int
  started : OrderedMap String Int
  running : NameSet
  overhead : Int

/-- A stopwatch without timers. -/
def Stopwatch.new (careful : Bool) : Stopwatch :=
  ⟨careful, OrderedMap.empty, OrderedMap.empty, NameSet.empty, 0⟩

/-- Forgets all timers and the time that timing took. -/
def Stopwatch.reset (w : Stopwatch) : Stopwatch :=
  Stopwatch.new w.careful

/-- What is left after a timer was started or stopped. -/
structure Tick where
  watch : Stopwatch
  clock : Clock
  warning : Option String
  fault : Option Fault

/-- Starts a timer. The clock is read twice, the second time for the overhead. -/
def Stopwatch.start (w : Stopwatch) (clock : Clock) (name : String) : Tick :=
  let (now, clock) := clock.read
  let warning :=
    if w.careful && w.running.contains name then
      some ("Trying to start timer, but already started: " ++ name)
    else none
  let running := if w.careful then w.running.insert name else w.running
  let (done, clock) := clock.read
  { watch := { w with
      started := w.started.insert name now
      running := running
      overhead := w.overhead + (done - now) }
    clock := clock
    warning := warning
    fault := none }

/-- Stops a timer and adds the time since its last start. A timer that was never started is a
fault, found after one reading. -/
def Stopwatch.stop (w : Stopwatch) (clock : Clock) (name : String) : Tick :=
  let (now, clock) := clock.read
  match w.started.get? name with
  | none => ⟨w, clock, none, some (.timerNotStarted name)⟩
  | some since =>
      let warning :=
        if w.careful && !w.running.contains name then
          some ("Trying to stop timer, but isn't running: " ++ name)
        else none
      let running := if w.careful then w.running.erase name else w.running
      let (done, clock) := clock.read
      { watch := { w with
          totals := w.totals.insert name ((w.totals.get? name).getD 0 + now - since)
          running := running
          overhead := w.overhead + (done - now) }
        clock := clock
        warning := warning
        fault := none }

/-- A time as a double. -/
def asDouble (nanoseconds : Int) : Except Fault Double :=
  match ofInt? nanoseconds with
  | some x => .ok x
  | none => .error .numberTooLarge

def billion : Double := ofInt 1000000000

/-- Nanoseconds in seconds. -/
def seconds (nanoseconds : Int) : Except Fault Double :=
  (asDouble nanoseconds).map fun x => div x billion

def secondsOf : List (String × Int) → Except Fault (List (String × Double))
  | [] => .ok []
  | (name, total) :: rest => do
      let x ← seconds total
      let rest ← secondsOf rest
      return (name, x) :: rest

/-- Seconds for each timer. -/
def Stopwatch.seconds (w : Stopwatch) : Except Fault (List (String × Double)) :=
  secondsOf w.totals.entries

/-- The time that is one hundred per cent: that of the timer named `Total` unless it is zero,
else the longest unless that is zero, else one. -/
def reference (totals : OrderedMap String Int) : Int :=
  let total := (totals.get? "Total").getD 0
  let longest := totals.values.foldl max (totals.values.headD 0)
  if total ≠ 0 then total else if longest ≠ 0 then longest else 1

/-- A line with the seconds of a timer and its part of the whole time in percent. -/
def reportLine (whole : Int) (name : String) (total : Int) : Except Fault String := do
  let s ← seconds total
  let part ← asDouble total
  let whole ← asDouble whole
  let percent := div (mul (ofInt 100) part) whole
  return padLeft 9 (fixed 2 s) ++ " sec, " ++ padLeft 5 (fixed 1 percent) ++ "%: " ++ name

def reportLines (whole : Int) : List (String × Int) → Except Fault (List String)
  | [] => .ok []
  | (name, total) :: rest => do
      let line ← reportLine whole name total
      let rest ← reportLines whole rest
      return line :: rest

/-- One line for each timer and one for the overhead, the longest time first. -/
def Stopwatch.report (w : Stopwatch) : Except Fault (List String) :=
  let totals := w.totals.insert "TimeLogger" w.overhead
  reportLines (reference totals)
    (totals.entries.mergeSort fun a b => decide (b.2 ≤ a.2))

end FragmentSynthesis.Stopwatches
