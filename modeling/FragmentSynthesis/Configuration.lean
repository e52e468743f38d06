import FragmentSynthesis.FieldReading
import FragmentSynthesis.TypeName

namespace FragmentSynthesis.Configuration

open FragmentSynthesis.Faults
open FragmentSynthesis.FieldReading
open FragmentSynthesis.TypeName
open FragmentSynthesis.Values

/-- The switches of a run. -/
structure Settings where
  /-- Zero is silent; above one, counters are reported; above two, every scored fragment. -/
  verbose : Nat
  mineFragments : Bool
  useAngelicConditions : Bool
  useSimpleName : Bool
  logTiming : Bool
  sypetMode : Bool
  deriving DecidableEq

/-- The settings before any file or command changes them. -/
def Settings.initial : Settings where
  verbose := 1
  mineFragments := true
  useAngelicConditions := true
  useSimpleName := false
  logTiming := false
  sypetMode := false

/-- The style in which names are shown. -/
def Settings.nameStyle (s : Settings) : NameStyle :=
  if s.useSimpleName then .simple else .qualified

/-- The settings by name. -/
inductive Setting
  | verbose
  | mineFragments
  | useAngelicConditions
  | useSimpleName
  | logTiming
  | sypetMode
  deriving DecidableEq

/-- The name of a setting in files and commands. -/
def Setting.name : Setting → String
  | .verbose => "verbose"
  | .mineFragments => "mine_fragments"
  | .useAngelicConditions => "use_angelic_conditions"
  | .useSimpleName => "use_simple_name"
  | .logTiming => "log_timing"
  | .sypetMode => "sypet_mode"

def Setting.all : List Setting :=
  [.verbose, .mineFragments, .useAngelicConditions, .useSimpleName, .logTiming, .sypetMode]

def Setting.ofName? (name : String) : Option Setting :=
  Setting.all.find? (·.name == name)

/-- What a setting is set to: a number or a truth value. -/
def Setting.Field : Setting → Type
  | .verbose => Nat
  | _ => Bool

/-- How a value is taken for the field of a setting, or why it is refused. Each value is judged on
its own, whatever the other settings are. -/
abbrev Validation := (setting : Setting) → Value → Except FieldProblem setting.Field

/-- How the fields of the settings are read: one whole number that is not negative, and truth
values. -/
def readField : Validation
  | .verbose => readNat
  | .mineFragments => readBool
  | .useAngelicConditions => readBool
  | .useSimpleName => readBool
  | .logTiming => readBool
  | .sypetMode => readBool

/-- Sets one field and leaves the others as they are. -/
def Settings.put (s : Settings) : (setting : Setting) → setting.Field → Settings
  | .verbose, n => { s with verbose := n }
  | .mineFragments, b => { s with mineFragments := b }
  | .useAngelicConditions, b => { s with useAngelicConditions := b }
  | .useSimpleName, b => { s with useSimpleName := b }
  | .logTiming, b => { s with logTiming := b }
  | .sypetMode, b => { s with sypetMode := b }

/-- Gives a setting a value as the validation of assignments takes it. -/
def Settings.configureOne (s : Settings) (assigned : Validation) (name : String) (v : Value) :
    Except Fault Settings :=
  match Setting.ofName? name with
  | none => .error (.unknownSetting name)
  | some setting => (atPlace name ((assigned setting v).map (s.put setting))).check

/-- Changes settings one after the other. Those before the first that fails stay changed. -/
def Settings.configure (s : Settings) (assigned : Validation) : Fields → Settings × Option Fault
  | [] => (s, none)
  | (name, v) :: rest =>
      match s.configureOne assigned name v with
      | .ok s => s.configure assigned rest
      | .error fault => (s, some fault)

/-- The fault of one entry of a settings file, from which settings are constructed. -/
def entryFault? (constructed : Validation) (name : String) (v : Value) : Option FieldFault :=
  match Setting.ofName? name with
  | none => some ⟨name, .extraForbidden⟩
  | some setting =>
      match constructed setting v with
      | .ok _ => none
      | .error problem => some ⟨name, problem⟩

/-- Changes settings as a file says. All its entries are checked first, by constructing settings
from them, and then assigned one by one. -/
def Settings.load (s : Settings) (constructed assigned : Validation) (d : Document) :
    Settings × Option Fault :=
  match d.fields .settings with
  | .error fault => (s, some fault)
  | .ok fields =>
      match fields.filterMap fun entry => entryFault? constructed entry.1 entry.2 with
      | [] => s.configure assigned fields
      | faults => (s, some (.invalidFields faults))

end FragmentSynthesis.Configuration
