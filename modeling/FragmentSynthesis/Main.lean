import FragmentSynthesis.Demonstration
import FragmentSynthesis.DocumentText

namespace FragmentSynthesis.Main

open FragmentSynthesis.Binary64
open FragmentSynthesis.Demonstration
open FragmentSynthesis.Faults
open FragmentSynthesis.FieldReading
open FragmentSynthesis.Sessions
open FragmentSynthesis.Values

/-- Where the documents of the demonstration are. -/
structure Options where
  catalog : String
  settings : String
  task : String
  seed : String

/-- The options when none are given. -/
def Options.initial : Options :=
  ⟨"config/components.json", "config/settings.json", "config/task.json", "0"⟩

/-- Takes options in pairs of a name and a value; none if one is not known or lacks its value. -/
def Options.take (o : Options) : List String → Option Options
  | [] => some o
  | "--catalog" :: path :: rest => Options.take { o with catalog := path } rest
  | "--settings" :: path :: rest => Options.take { o with settings := path } rest
  | "--task" :: path :: rest => Options.take { o with task := path } rest
  | "--seed" :: seed :: rest => Options.take { o with seed := seed } rest
  | _ => none

/-- Reads a document. A text that describes no value is a value of its own. -/
def document (path : String) : IO Document := do
  match ← (IO.FS.readFile path).toBaseIO with
  | .ok text => return .content ((DocumentText.read text).getD (.text text))
  | .error _ => return .absent path

def usage : String :=
  "usage: fragments [--catalog PATH] [--settings PATH] [--task PATH] [--seed N]"

/-- The demonstration as one computation, for given readings of the time of day. -/
def run (catalog settings task : Document) (wall : List Double) : Except Fault Unit × Session :=
  (demonstrate catalog settings task).run.run (Session.initial [] wall)

/-- Nanoseconds in seconds. -/
def nanoseconds (n : Nat) : Double :=
  div (ofInt n) (ofInt 1000000000)

end FragmentSynthesis.Main

open FragmentSynthesis.Main FragmentSynthesis.Sessions in
/-- Runs the demonstration once to see how long it takes, then shows a run that took so long. -/
def main (args : List String) : IO UInt32 := do
  match Options.initial.take args with
  | none =>
      IO.eprintln usage
      return 2
  | some o =>
      let catalog ← document o.catalog
      let settings ← document o.settings
      let task ← document o.task
      let before ← IO.monoNanosNow
      let length := (run catalog settings task []).2.printed.length
      let after ← if length = 0 then pure before else IO.monoNanosNow
      let (result, s) :=
        run catalog settings task [nanoseconds 0, nanoseconds (after - before)]
      IO.print s.printed
      match result with
      | .ok _ => return 0
      | .error fault =>
          IO.eprintln fault.message
          return 1
