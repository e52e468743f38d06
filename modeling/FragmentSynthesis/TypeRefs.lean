import FragmentSynthesis.TypeName
import FragmentSynthesis.Values

namespace FragmentSynthesis.TypeRefs

open FragmentSynthesis.TypeName
open FragmentSynthesis.Values

/-- A type of a component: a name, or other plain data that stood in the place of one. -/
inductive TypeRef
  | named (name : String)
  | unnamed (v : Value)
  deriving DecidableEq

/-- The type has a name. -/
def TypeRef.isNamed : TypeRef → Bool
  | .named _ => true
  | .unnamed _ => false

/-- The name of a type, or the description of the value in its place. -/
def TypeRef.shown : TypeRef → String
  | .named name => name
  | .unnamed v => v.describe

/-- Whether things can be listed under a type. A collection in the place of a name is no such
key. -/
def TypeRef.isKey : TypeRef → Bool
  | .unnamed (.list _) => false
  | .unnamed (.mapping _) => false
  | _ => true

/-- The form that types have in common when they count as one. -/
def TypeRef.normal : TypeRef → TypeRef
  | .named name => .named name
  | .unnamed v => .unnamed v.normal

/-- The type of a binary operation. Named types are promoted; a text makes the whole a text, and
else the right side decides. -/
def TypeRef.promote : TypeRef → TypeRef → TypeRef
  | .named left, .named right => .named (TypeName.promote left right)
  | .named left, .unnamed right => if left = string then .named string else .unnamed right
  | .unnamed _, right => right

end FragmentSynthesis.TypeRefs
