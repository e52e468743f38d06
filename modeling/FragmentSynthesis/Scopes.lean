import FragmentSynthesis.Faults
import FragmentSynthesis.NameSets
import FragmentSynthesis.OrderedMaps
import FragmentSynthesis.TypeName

/-!
The variables of a program. Each has a place of its own: among the parameters and fields, the
locals declared at the top, the loop counters declared there or in the header of their loop, or
the elements that loops run through. All names are also in scope, where further names can be
reserved. An index lists the names of each type.
-/

namespace FragmentSynthesis.Scopes

open FragmentSynthesis.Faults
open FragmentSynthesis.NameSets
open FragmentSynthesis.OrderedMaps
open FragmentSynthesis.TypeName

/-- The variables of a program by what they are: parameters, locals, counters declared outside and
in the headers of loops, and elements. Names may be taken without being declared, and an index lists
the names of each type. -/
structure Scope where
  owner : String
  parameters : OrderedMap String String
  locals : OrderedMap String String
  counters : NameSet
  headerCounters : NameSet
  elements : OrderedMap String String
  inScope : NameSet
  typeIndex : OrderedMap String (List String)

/-- Every declared variable with its type. -/
def Scope.all (s : Scope) : OrderedMap String String :=
  (((s.parameters.insertAll s.locals.entries).insertAll
    ((s.counters.union s.headerCounters).names.map fun name => (name, int))).insertAll
      s.elements.entries)

/-- Appends a name to those of its type. -/
def addToIndex (index : OrderedMap String (List String)) (name type : String) :
    OrderedMap String (List String) :=
  index.alter type [] (· ++ [name])

/-- The index of some parameters, in their order. -/
def indexOf (parameters : OrderedMap String String) : OrderedMap String (List String) :=
  parameters.entries.foldl (fun index entry => addToIndex index entry.1 entry.2)
    OrderedMap.empty

/-- The scope with its index made anew from the declared variables. -/
def Scope.reindexed (s : Scope) : Scope :=
  { s with typeIndex := indexOf s.all }

/-- A scope with parameters only. -/
def Scope.ofParameters (owner : String) (parameters : OrderedMap String String) : Scope :=
  { owner := owner
    parameters := parameters
    locals := OrderedMap.empty
    counters := NameSet.empty
    headerCounters := NameSet.empty
    elements := OrderedMap.empty
    inScope := NameSet.ofList parameters.keys
    typeIndex := indexOf parameters }

/-- All names that are taken, a name being listed for each place that has it. -/
def Scope.takenNames (s : Scope) : List String :=
  s.parameters.keys ++ s.locals.keys ++ s.counters.names ++ s.headerCounters.names
    ++ s.elements.keys ++ s.inScope.names

/-- The name cannot be declared any more. -/
def Scope.isDeclared (s : Scope) (name : String) : Bool :=
  decide (name ∈ s.takenNames)

/-- The type of a declared variable. -/
def Scope.typeOf? (s : Scope) (name : String) : Option String :=
  s.all.get? name

/-- The names that the index lists for a type. -/
def Scope.namesOfType (s : Scope) (type : String) : List String :=
  (s.typeIndex.get? type).getD []

/-- Puts a new name in scope and into the index. A name that is taken is refused. -/
def Scope.declare (s : Scope) (name type : String) : Except Fault Scope :=
  if s.isDeclared name then .error (.alreadyDeclared name s.owner)
  else .ok { s with
    inScope := s.inScope.insert name
    typeIndex := addToIndex s.typeIndex name type }

/-- Declares a local, unless its name is taken. -/
def Scope.addLocal (s : Scope) (name type : String) : Except Fault Scope :=
  (s.declare name type).map fun s => { s with locals := s.locals.insert name type }

/-- Declares a counter, outside of loops or in the header of one. -/
def Scope.addCounter (s : Scope) (name : String) (inHeader : Bool) : Except Fault Scope :=
  (s.declare name int).map fun s =>
    if inHeader then { s with headerCounters := s.headerCounters.insert name }
    else { s with counters := s.counters.insert name }

/-- Declares the element of a loop through a container. -/
def Scope.addElement (s : Scope) (name type : String) : Except Fault Scope :=
  (s.declare name type).map fun s => { s with elements := s.elements.insert name type }

/-- Takes a name without declaring it. -/
def Scope.reserve (s : Scope) (name : String) : Scope :=
  { s with inScope := s.inScope.insert name }

/-- Gives a name that was taken free again. What was declared stays declared. -/
def Scope.release (s : Scope) (name : String) : Scope :=
  { s with inScope := s.inScope.erase name }

/-- The first candidate from a place on that is not taken, looking at no more than a number of
places before the last. -/
def seek (taken : List String) (candidate : Nat → String) : Nat → Nat → String
  | 0, n => candidate n
  | places + 1, n =>
      if candidate n ∈ taken then seek taken candidate places (n + 1) else candidate n

/-- The first free candidate from a place on. Distinct candidates cannot all be taken in one more
place than there are taken names. -/
def Scope.firstFree (s : Scope) (candidate : Nat → String) (start : Nat) : String :=
  seek s.takenNames candidate s.takenNames.length start

def numbered (base : String) (n : Nat) : String :=
  base ++ toString n

/-- The names of a list one after the other, then again with the number of the round behind
each. -/
def cycled (first : String) (others : List String) (n : Nat) : String :=
  let names := first :: others
  let name := names.getD (n % names.length) first
  if n < names.length then name else numbered name (n / names.length)

/-- The first free name for a local, numbered on from how many locals there are. -/
def Scope.freshLocal (s : Scope) : String :=
  s.firstFree (numbered "var") s.locals.size

/-- The first free name for a counter: single letters, and then these with numbers. -/
def Scope.freshCounter (s : Scope) : String :=
  s.firstFree (cycled "i" ["j", "k", "m", "n"]) 0

/-- The first free name for an element, with a number behind it from one on. -/
def Scope.freshElement (s : Scope) : String :=
  s.firstFree (cycled "elem" []) 0

/-- The scope with names replaced everywhere but in the index. -/
def Scope.rename (f : String → String) (s : Scope) : Scope :=
  { s with
    parameters := s.parameters.mapKeys f
    locals := s.locals.mapKeys f
    counters := s.counters.map f
    headerCounters := s.headerCounters.map f
    elements := s.elements.mapKeys f
    inScope := s.inScope.map f }

end FragmentSynthesis.Scopes
