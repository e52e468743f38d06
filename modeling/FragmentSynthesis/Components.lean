import FragmentSynthesis.Faults
import FragmentSynthesis.TokenTables
import FragmentSynthesis.TypeRefs

namespace FragmentSynthesis.Components

open FragmentSynthesis.Faults
open FragmentSynthesis.TokenTables
open FragmentSynthesis.TypeName
open FragmentSynthesis.TypeRefs

/-- What a component is: a member of a class or an operation on arrays. -/
inductive Kind
  | method
  | constructor
  | field
  | arrayGet
  | arraySet
  | arrayLength
  deriving DecidableEq

def Kind.name : Kind → String
  | .method => "METHOD"
  | .constructor => "CONSTRUCTOR"
  | .field => "FIELD"
  | .arrayGet => "ARR_GET"
  | .arraySet => "ARR_SET"
  | .arrayLength => "ARR_LEN"

def Kind.all : List Kind :=
  [.method, .constructor, .field, .arrayGet, .arraySet, .arrayLength]

def Kind.ofName? (name : String) : Option Kind :=
  Kind.all.find? (·.name == name)

/-- The kind of a name, or the fault that there is none. -/
def Kind.ofName (name : String) : Except Fault Kind :=
  match Kind.ofName? name with
  | some kind => .ok kind
  | none => .error (.unknownKind name)

/-- The kind is an operation on arrays, not a member of a class. -/
def Kind.isArray : Kind → Bool
  | .arrayGet | .arraySet | .arrayLength => true
  | _ => false

/-- What a record of some kind lacks, if anything: all but array operations need a declaring
type, and all but these and constructors a name. -/
def lack? (kind : Kind) (declaringType name : Option String) : Option String :=
  if kind.isArray then none
  else if declaringType.isNone then some (kind.name ++ " component needs a declaring_type")
  else if kind ≠ .constructor ∧ name.getD "" = "" then some (kind.name ++ " component needs a name")
  else none

/-- An entry of a catalog. Its type names may mention its type parameters. -/
structure Record where
  kind : Kind
  declaringType : Option String
  name : Option String
  returnType : String
  argTypes : List String
  isStatic : Bool
  typeParams : List String
  complete : lack? kind declaringType name = none

/-- What two components have in common when they are the same one. -/
inductive Identity
  | method (declaringType name : Option String) (argTypes : List String) (returnType : String)
  | constructor (declaringType : Option String) (argTypes : List String)
  | field (declaringType name : Option String)
  | arrayOperation (kind : Kind) (argTypes : List String)
  deriving DecidableEq

/-- A member of a class or an array operation, with its token. The simple name leaves out
qualifiers. -/
structure Component where
  kind : Kind
  declaringType : Option String
  name : Option String
  simpleName : Option String
  returnType : TypeRef
  argTypes : List TypeRef
  isStatic : Bool
  identity : Identity
  valid : Bool
  returnsGeneric : Bool
  token : String
  deriving DecidableEq

/-- The component gives a value. -/
def Component.returns (c : Component) : Bool :=
  c.returnType != .named void

/-- A missing name as it is shown. -/
def shown (name : Option String) : String :=
  name.getD "None"

/-- The text that tokens are issued for: the kind with the declaring type, the name, the number of
arguments and whether the component is static, with dashes between. -/
def structuralKey (kind : Kind) (declaringType name : Option String) (arity : Nat)
    (isStatic : Bool) : String :=
  kind.name ++ declaringType.getD "~" ++ "-" ++ shown name ++ "-" ++ toString arity ++ "-"
    ++ (if isStatic then "true" else "false")

/-- The key whose token stands for the component in encodings. -/
def Component.key (c : Component) : String :=
  structuralKey c.kind c.declaringType c.name c.argTypes.length c.isStatic

/-- The text by which components are sorted. -/
def Component.sortKey (c : Component) : String :=
  " ".intercalate
    (c.declaringType.getD "null" :: shown c.name :: toString c.argTypes.length
      :: c.argTypes.map TypeRef.shown)

/-- A component as it is shown in logs. -/
def Component.describe (c : Component) : String :=
  "FunctionData(" ++ c.kind.name ++ ", " ++ shown c.declaringType ++ "." ++ shown c.name ++ "("
    ++ ", ".intercalate (c.argTypes.map TypeRef.shown) ++ ") -> " ++ c.returnType.shown ++ ")"

/-- All argument types are names and not other plain data. -/
def Component.hasNames (c : Component) : Bool :=
  c.argTypes.all TypeRef.isNamed

/-- The component, if the types of its arguments have names. Without these it can neither be
described nor sorted. -/
def Component.named (c : Component) : Except Fault Component :=
  if c.hasNames then .ok c else .error .wrongShape

/-- The name that source text shows in a style. -/
def Component.displayName (c : Component) : NameStyle → String
  | .qualified => shown c.name
  | .simple => shown c.simpleName

/-- The declaring type that source text shows in a style. -/
def Component.displayType (c : Component) : NameStyle → String
  | .qualified => shown c.declaringType
  | .simple => simpleName? c.declaringType

/-- Gives a component the token of its key, adding the key to the table. -/
def Component.register (c : Component) (table : TokenTable) : Component × TokenTable :=
  ({ c with token := table.token c.key }, table.add c.key)

/-- What stands in the place of type parameters. -/
structure Instantiation where
  typeParams : List String
  parameter : Option TypeRef

/-- Whether a type name mentions a type parameter. -/
def Instantiation.mentions (i : Instantiation) (type : String) : Bool :=
  (tokens type).any fun token => decide (token ∈ i.typeParams)

/-- A type name without type arguments, a type parameter in it becoming the root type. -/
def Instantiation.erase (i : Instantiation) (type : String) : String :=
  let erased := (erasure type).toList
  let base := (erased.reverse.dropWhile fun c => c == '[' || c == ']').reverse
  if String.ofList base ∈ i.typeParams then object ++ String.ofList (erased.drop base.length)
  else String.ofList erased

/-- A type parameter becomes the concrete type or the root type; all else is erased. -/
def Instantiation.convert (i : Instantiation) (type : String) : TypeRef :=
  if type ∈ i.typeParams then i.parameter.getD (.named object) else .named (i.erase type)

/-- Whether nothing is lost in conversion: the type is a type parameter itself, mentions none, or
there is no concrete type. -/
def Instantiation.resolves (i : Instantiation) (type : String) : Bool :=
  decide (type ∈ i.typeParams) || i.parameter.isNone || !i.mentions type

/-- Whether the result of a record depends on its type parameters. -/
def Instantiation.isGenericResult (i : Instantiation) (type : String) : Bool :=
  i.convert type != .named void && (decide (type ∈ i.typeParams) || i.mentions type)

/-- An operation on arrays, which is static and has neither a name nor a declaring type. -/
def arrayComponent (kind : Kind) (returnType : String) (argTypes : List String) : Component where
  kind := kind
  declaringType := none
  name := none
  simpleName := none
  returnType := .named returnType
  argTypes := argTypes.map .named
  isStatic := true
  identity := .arrayOperation kind argTypes
  valid := true
  returnsGeneric := false
  token := ""

/-- A constructor is named for its type with the type argument, and gives a value of that type. -/
def constructorComponent (r : Record) (i : Instantiation) : Component where
  kind := .constructor
  declaringType := r.declaringType
  name := r.declaringType.map (parameterized .qualified · (i.parameter.map TypeRef.shown))
  simpleName := r.declaringType.map (parameterized .simple · (i.parameter.map TypeRef.shown))
  returnType := .named (shown r.declaringType)
  argTypes := r.argTypes.map i.convert
  isStatic := true
  identity := .constructor r.declaringType (r.argTypes.map i.erase)
  valid := r.argTypes.all i.resolves
  returnsGeneric := false
  token := ""

/-- A field takes no arguments and gives a value of its own type. -/
def fieldComponent (r : Record) (i : Instantiation) : Component where
  kind := .field
  declaringType := r.declaringType
  name := r.name
  simpleName := r.name
  returnType := i.convert r.returnType
  argTypes := []
  isStatic := r.isStatic
  identity := .field r.declaringType r.name
  valid := i.resolves r.returnType
  returnsGeneric := i.isGenericResult r.returnType
  token := ""

/-- Whether a method compares its receiver with one other object; its argument then has the
declaring type, whatever the record gives. -/
def isComparison (r : Record) : Bool :=
  r.name == some "equals" && r.argTypes.length == 1

/-- A method with the type parameters of its record replaced in all its types. -/
def methodComponent (r : Record) (i : Instantiation) : Component where
  kind := .method
  declaringType := r.declaringType
  name := r.name
  simpleName := r.name
  returnType := i.convert r.returnType
  argTypes :=
    if isComparison r then [.named (shown r.declaringType)] else r.argTypes.map i.convert
  isStatic := r.isStatic
  identity := .method r.declaringType r.name (r.argTypes.map i.erase) (i.erase r.returnType)
  valid := i.resolves r.returnType && (isComparison r || r.argTypes.all i.resolves)
  returnsGeneric := i.isGenericResult r.returnType
  token := ""

/-- The component of a record, before it has a token. -/
def unregistered (r : Record) (parameter : Option TypeRef) : Component :=
  let i : Instantiation := ⟨r.typeParams, parameter⟩
  match r.kind with
  | .constructor => constructorComponent r i
  | .field => fieldComponent r i
  | .method => methodComponent r i
  | kind => arrayComponent kind r.returnType r.argTypes

/-- The component of a record, with a token of the table. The name of a constructor takes the name
of the concrete type in. -/
def ofRecord (r : Record) (table : TokenTable) (parameter : Option TypeRef) :
    Except Fault (Component × TokenTable) :=
  if r.kind = .constructor && !parameter.all TypeRef.isNamed then .error .wrongShape
  else .ok ((unregistered r parameter).register table)

/-- Reading an element of an array, writing one, or the length of an array. -/
def arrayOperation (kind : Kind) (arrayType : String) : Except Fault Component :=
  let element := dropBrackets arrayType
  match kind with
  | .arrayGet => .ok (arrayComponent kind element [arrayType, int])
  | .arraySet => .ok (arrayComponent kind void [arrayType, int, element])
  | .arrayLength => .ok (arrayComponent kind int [arrayType])
  | kind => .error (.notArrayOperation kind.name)

end FragmentSynthesis.Components
