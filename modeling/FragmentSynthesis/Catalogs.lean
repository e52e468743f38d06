import FragmentSynthesis.Components

namespace FragmentSynthesis.Catalogs

open FragmentSynthesis.Components
open FragmentSynthesis.Faults
open FragmentSynthesis.TokenTables
open FragmentSynthesis.TypeName
open FragmentSynthesis.TypeRefs

/-- The components in their order, and how many records were skipped. The type parameter and the
table of tokens are shared by all records. -/
structure Catalog where
  parameterType : Option TypeRef
  table : TokenTable
  components : List Component
  skipped : Nat

def Catalog.empty (parameterType : Option TypeRef) (table : TokenTable) : Catalog :=
  ⟨parameterType, table, [], 0⟩

/-- Puts a component behind those whose key is not larger. -/
def insertSorted (c : Component) : List Component → List Component
  | [] => [c]
  | d :: rest => if c.sortKey < d.sortKey then c :: d :: rest else d :: insertSorted c rest

/-- Components in the order of their keys, those with one key in the order they are given. -/
def sortComponents (components : List Component) : List Component :=
  components.mergeSort fun c d => decide (c.sortKey ≤ d.sortKey)

/-- A component with the same identity is in the catalog. -/
def Catalog.holds (catalog : Catalog) (c : Component) : Bool :=
  catalog.components.any fun d => d.identity == c.identity

/-- Whether components have an order: their arguments have named types, or there is at most one of
them. -/
def isSortable (components : List Component) : Bool :=
  components.length ≤ 1 || components.all Component.hasNames

/-- Sorts a component in, or puts it last where there is no order. -/
def place (c : Component) (components : List Component) : List Component :=
  if isSortable (c :: components) then insertSorted c components else components ++ [c]

/-- Takes a component in unless one with its identity is there. -/
def Catalog.accept (catalog : Catalog) (c : Component) : Option Component × Catalog :=
  if catalog.holds c then (none, catalog)
  else (some c, { catalog with components := place c catalog.components })

/-- What became of a record. One whose component cannot be made, described or sorted in is
refused. -/
inductive Verdict
  | added (c : Component)
  | repeated (c : Component)
  | skipped (c : Component)
  | refused (fault : Fault)

/-- The fault of a record that was refused. -/
def Verdict.fault? : Verdict → Option Fault
  | .refused fault => some fault
  | _ => none

/-- Adds the component of a record. The type parameter of the catalog is used only for records
with type parameters. -/
def Catalog.addRecord (catalog : Catalog) (r : Record) : Verdict × Catalog :=
  let parameter := if r.typeParams.isEmpty then none else catalog.parameterType
  match ofRecord r catalog.table parameter with
  | .error fault => (.refused fault, catalog)
  | .ok (c, table) =>
      let catalog := { catalog with table := table }
      if c.valid then
        match catalog.accept c with
        | (some c, catalog) =>
            (if isSortable catalog.components then .added c else .refused .wrongShape, catalog)
        | (none, catalog) => (.repeated c, catalog)
      else
        (if c.hasNames then .skipped c else .refused .wrongShape,
          { catalog with skipped := catalog.skipped + 1 })

/-- Adds records up to the first that is refused. -/
def Catalog.addRecords (catalog : Catalog) : List Record → List Verdict × Catalog
  | [] => ([], catalog)
  | r :: rest =>
      match catalog.addRecord r with
      | (.refused fault, catalog) => ([.refused fault], catalog)
      | (verdict, catalog) =>
          let (verdicts, catalog) := catalog.addRecords rest
          (verdict :: verdicts, catalog)

/-- Adds one of the operations on an array type. -/
def Catalog.addArrayOperation (catalog : Catalog) (c : Component) :
    Option Component × Catalog :=
  let (c, table) := c.register catalog.table
  { catalog with table := table }.accept c

/-- The three operations on an array type. -/
def arrayOperations (type : String) : List Component :=
  let element := dropBrackets type
  [arrayComponent .arrayGet element [type, int],
    arrayComponent .arraySet void [type, int, element],
    arrayComponent .arrayLength int [type]]

/-- Adds operations and returns those that are new, as long as the catalog has an order. -/
def Catalog.addArrayOperations (catalog : Catalog) : List Component →
    Except Fault (List Component) × Catalog
  | [] => (.ok [], catalog)
  | c :: rest =>
      let (added, catalog) := catalog.addArrayOperation c
      if added.isNone || isSortable catalog.components then
        let (others, catalog) := catalog.addArrayOperations rest
        (others.map fun others => added.toList ++ others, catalog)
      else (.error .wrongShape, catalog)

/-- Adds the operations on an array type and returns those that are new. -/
def Catalog.addArrayType (catalog : Catalog) (type : String) :
    Except Fault (List Component) × Catalog :=
  if isArray type then catalog.addArrayOperations (arrayOperations type)
  else (.error (.notArrayType type), catalog)

def Catalog.size (catalog : Catalog) : Nat :=
  catalog.components.length

/-- The components with a result of a type. -/
def Catalog.returning (catalog : Catalog) (type : TypeRef) : List Component :=
  catalog.components.filter fun c => c.returnType.normal == type.normal

/-- The components of a declaring type with a given name, overloads in the order of the catalog. -/
def Catalog.find (catalog : Catalog) (declaringType name : Option String) : List Component :=
  catalog.components.filter fun c => c.declaringType == declaringType && c.name == name

end FragmentSynthesis.Catalogs
