import FragmentSynthesis.FieldReading

namespace FragmentSynthesis.Tasks

open FragmentSynthesis.Faults
open FragmentSynthesis.FieldReading
open FragmentSynthesis.Values

/-- What the solution of a task is known to need. -/
inductive Tag
  | forLoop
  | foreachLoop
  | whileLoop
  | branch
  | singleLine
  | returns
  | array
  | generic
  deriving DecidableEq

/-- The name of a tag in task files. -/
def Tag.name : Tag → String
  | .forLoop => "FOR"
  | .foreachLoop => "FOREACH"
  | .whileLoop => "WHILE"
  | .branch => "IF"
  | .singleLine => "SINGLE_LINE"
  | .returns => "RETURNS"
  | .array => "ARRAY"
  | .generic => "GENERIC"

def Tag.all : List Tag :=
  [.forLoop, .foreachLoop, .whileLoop, .branch, .singleLine, .returns, .array, .generic]

def Tag.ofName? (name : String) : Option Tag :=
  Tag.all.find? (·.name == name)

/-- A task for synthesis, as its file describes it. -/
structure Task where
  name : String
  group : Option String
  numExamples : Nat
  numComponents : Nat
  tags : List Tag
  sypetMode : Bool

/-- Reads a task, of which only the name has to be given, and reports all refused fields together.
-/
def Task.read (fields : Fields) : Reading Task :=
  (both (requiredField fields "name" readText)
    (both (optionalField fields "group" none readOptionalText)
      (both (optionalField fields "num_examples" 0 readNat)
        (both (optionalField fields "num_components" 0 readNat)
          (both (listField fields "tags" (readName Tag.ofName?))
            (optionalField fields "sypet_mode" false readBool)))))).map
    fun (name, group, numExamples, numComponents, tags, sypetMode) =>
      ⟨name, group, numExamples, numComponents, tags, sypetMode⟩

/-- Loads a task from a document. -/
def Task.load (d : Document) : Except Fault Task := do
  let fields ← d.fields .task
  (Task.read fields).check

end FragmentSynthesis.Tasks
