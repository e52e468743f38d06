import FragmentSynthesis.Catalogs
import FragmentSynthesis.FieldReading

namespace FragmentSynthesis.CatalogDocument

open FragmentSynthesis.Catalogs
open FragmentSynthesis.Components
open FragmentSynthesis.Faults
open FragmentSynthesis.FieldReading
open FragmentSynthesis.TokenTables
open FragmentSynthesis.TypeName
open FragmentSynthesis.TypeRefs
open FragmentSynthesis.Values

/-- The fields of a record. What a record of its kind lacks is looked for only if no field is
refused. -/
def readRecord (fields : Fields) : Reading Record := do
  let (kind, declaringType, name, returnType, argTypes, isStatic, typeParams) ←
    both (requiredField fields "kind" (readName Kind.ofName?))
      (both (optionalField fields "declaring_type" none readOptionalText)
        (both (optionalField fields "name" none readOptionalText)
          (both (optionalField fields "return_type" void readText)
            (both (listField fields "arg_types" readText)
              (both (optionalField fields "is_static" false readBool)
                (listField fields "type_params" readText))))))
  match h : lack? kind declaringType name with
  | some reason => throw [⟨"", .inconsistent reason⟩]
  | none =>
      return { kind, declaringType, name, returnType, argTypes, isStatic, typeParams,
               complete := h }

/-- A record read from a value, with all its refused fields as one fault. -/
def recordOfValue (v : Value) : Except Fault Record := do
  (readRecord (← fieldsOf v)).check

/-- The records of a list of values, or the first fault. -/
def recordsOfValues : List Value → Except Fault (List Record)
  | [] => .ok []
  | v :: rest => do
      let r ← recordOfValue v
      let rest ← recordsOfValues rest
      return r :: rest

/-- The records of a section. A section that is missing or empty has none, and only a list has any.
-/
def recordsOf : Option Value → Except Fault (List Record)
  | none => .ok []
  | some (.list items) => recordsOfValues items
  | some (.text "") => .ok []
  | some (.mapping []) => .ok []
  | some _ => .error .wrongShape

/-- The array types to go through. A text is gone through by its characters and a mapping by its
names; anything else ends it. -/
def arrayTypesOf : Option Value → List (Except Fault String)
  | none => []
  | some (.list items) => items.map fun v =>
      match v with
      | .text s => .ok s
      | _ => .error .missingPart
  | some (.text s) => s.toList.map fun c => .ok (String.singleton c)
  | some (.mapping entries) => entries.map fun entry => .ok entry.1
  | some _ => [.error .wrongShape]

/-- The type that stands for the type parameters of all records, if the document names one. -/
def parameterOf : Option Value → Option TypeRef
  | none => none
  | some .null => none
  | some (.text s) => some (.named s)
  | some v => some (.unnamed v)

/-- How far the making of a catalog came: what became of each record, and the fault that ended
it, if any. -/
structure Build where
  catalog : Catalog
  verdicts : List Verdict
  fault : Option Fault

/-- Adds the operations on array types until one is refused. -/
def addArrayTypes (catalog : Catalog) : List (Except Fault String) → Catalog × Option Fault
  | [] => (catalog, none)
  | .error fault :: _ => (catalog, some fault)
  | .ok type :: rest =>
      match catalog.addArrayType type with
      | (.error fault, catalog) => (catalog, some fault)
      | (.ok _, catalog) => addArrayTypes catalog rest

/-- Adds records and, unless one of them is refused, the operations on array types. -/
def build (start : Catalog) (records : List Record) (arrayTypes : List (Except Fault String)) :
    Build :=
  let (verdicts, catalog) := start.addRecords records
  match verdicts.findSome? Verdict.fault? with
  | some fault => ⟨catalog, verdicts, some fault⟩
  | none =>
      let (catalog, fault) := addArrayTypes catalog arrayTypes
      ⟨catalog, verdicts, fault⟩

/-- The catalog a document describes. All records are checked before the first is added. -/
def load (table : TokenTable) (d : Document) : Build :=
  match d.value .catalog with
  | .error fault => ⟨Catalog.empty none table, [], some fault⟩
  | .ok (.mapping fields) =>
      match recordsOf (valueOf? fields "components") with
      | .error fault => ⟨Catalog.empty none table, [], some fault⟩
      | .ok records =>
          build (Catalog.empty (parameterOf (valueOf? fields "parameter_type")) table) records
            (arrayTypesOf (valueOf? fields "array_types"))
  | .ok _ => ⟨Catalog.empty none table, [], some .missingPart⟩

end FragmentSynthesis.CatalogDocument
