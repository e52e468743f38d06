import FragmentSynthesis.QuotedText

namespace FragmentSynthesis.Faults

open FragmentSynthesis.QuotedText

/-- The analyses that take nodes apart. -/
inductive Analysis
  | size
  | subExpressions
  | fragments
  | usedVars
  | containsVar
  | searchMatch
  | countMatch
  | substitute
  | mergeCompatible
  | computeUsefulness
  | angelicCount
  | body
  | concrete
  deriving DecidableEq

def Analysis.name : Analysis → String
  | .size => "size"
  | .subExpressions => "sub_expressions"
  | .fragments => "fragments"
  | .usedVars => "used_vars"
  | .containsVar => "contains_var"
  | .searchMatch => "search_match"
  | .countMatch => "count_match"
  | .substitute => "substitute"
  | .mergeCompatible => "merge_compatible"
  | .computeUsefulness => "compute_usefulness"
  | .angelicCount => "angelic_count"
  | .body => "_body"
  | .concrete => "_concrete"

/-- The documents that are loaded. -/
inductive DocumentKind
  | catalog
  | settings
  | task
  deriving DecidableEq

/-- What a fault calls a kind of document. -/
def DocumentKind.description : DocumentKind → String
  | .catalog => "component catalog"
  | .settings => "settings file"
  | .task => "task file"

/-- Why the value of a field is refused. -/
inductive FieldProblem
  | missing
  | extraForbidden
  | stringType
  | intType
  | intParsing
  | intParsingSize
  | intFromFloat
  | finiteNumber
  | greaterThanEqual
  | boolType
  | boolParsing
  | listType
  | enum
  | inconsistent (reason : String)
  deriving DecidableEq

/-- The name of the reason why a field was refused. -/
def FieldProblem.name : FieldProblem → String
  | .missing => "missing"
  | .extraForbidden => "extra_forbidden"
  | .stringType => "string_type"
  | .intType => "int_type"
  | .intParsing => "int_parsing"
  | .intParsingSize => "int_parsing_size"
  | .intFromFloat => "int_from_float"
  | .finiteNumber => "finite_number"
  | .greaterThanEqual => "greater_than_equal"
  | .boolType => "bool_type"
  | .boolParsing => "bool_parsing"
  | .listType => "list_type"
  | .enum => "enum"
  | .inconsistent _ => "value_error"

/-- The message of a problem that has one of its own. -/
def FieldProblem.message? : FieldProblem → Option String
  | .inconsistent reason => some ("Value error, " ++ reason)
  | _ => none

/-- A refused field; the place is empty for the record as a whole. -/
structure FieldFault where
  place : String
  problem : FieldProblem
  deriving DecidableEq

/-- What ends a computation, with what its message reports. -/
inductive Fault
  | notArrayType (type : String)
  | notArrayOperation (kind : String)
  | unknownKind (name : String)
  | untypedLiteral (value : String)
  | unexpectedOperand (operator : String)
  | missingOperand (operator : String)
  | missingCounter
  | argumentCount (component : String) (expected given : Nat)
  | notInstantiable (component : String)
  | alreadyDeclared (name program : String)
  | unknownNode (kind : String) (analysis : Analysis)
  | unknownSetting (name : String)
  | missingDocument (kind : DocumentKind) (path : String)
  | timerNotStarted (name : String)
  /-- Nothing of the sort that is asked for has this name. -/
  | unknownName (name : String)
  | invalidFields (faults : List FieldFault)
  /-- A document or one of its parts has the wrong shape to be gone through. -/
  | wrongShape
  /-- A list or mapping stands where a number is needed. -/
  | notANumber
  | numberTooLarge
  /-- Something is asked of a node that has no such part. -/
  | missingPart
  /-- An array operation has fewer arguments than it shows, or a place lies outside a list. -/
  | outOfRange
  /-- No component of a catalog is of the kind that is looked for. -/
  | nothingFound
  deriving DecidableEq

/-- The report of a fault; the last six have none. -/
def Fault.message : Fault → String
  | .notArrayType type => "Not an array type: " ++ type
  | .notArrayOperation kind => "Not an array operation: Kind." ++ kind
  | .unknownKind name => quoted name ++ " is not a valid Kind"
  | .untypedLiteral value => "Cannot infer literal type of " ++ value
  | .unexpectedOperand operator => "Unary operator " ++ operator ++ " takes no left operand"
  | .missingOperand operator => "Binary operator " ++ operator ++ " needs a left operand"
  | .missingCounter => "A for loop needs a counter variable"
  | .argumentCount component expected given =>
      component ++ " expects " ++ toString expected ++ " arguments, got " ++ toString given
  | .notInstantiable component => "Cannot instantiate " ++ component
  | .alreadyDeclared name program =>
      "Variable " ++ name ++ " is already declared in " ++ program
  | .unknownNode kind analysis =>
      "Unknown node class " ++ kind ++ " in " ++ analysis.name ++ "()"
  | .unknownSetting name => "Unknown setting: " ++ name
  | .missingDocument kind path => "Could not find " ++ kind.description ++ " at " ++ path
  | .timerNotStarted name => "Timer was never started: " ++ name
  | .unknownName name => name
  | .invalidFields faults =>
      "; ".intercalate (faults.map fun f => f.place ++ ": " ++ f.problem.name)
  | .wrongShape => ""
  | .notANumber => ""
  | .numberTooLarge => ""
  | .missingPart => ""
  | .outOfRange => ""
  | .nothingFound => ""

/-- What has a name, given what was found under it. -/
def known {α : Type} (name : String) : Option α → Except Fault α
  | some found => .ok found
  | none => .error (.unknownName name)

end FragmentSynthesis.Faults
