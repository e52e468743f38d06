import FragmentSynthesis.Programs
import FragmentSynthesis.StoppingChanges

/-!
Fitting a fragment into a program before it is spliced in. Its free variables become parameters
or fields of the program of the same type, or new locals; its binders become counters and
elements of the program, under new names where theirs are taken. The map of names sees to it that
one name is replaced alike everywhere.
-/

namespace FragmentSynthesis.Splicing

open FragmentSynthesis.Expression
open FragmentSynthesis.Faults
open FragmentSynthesis.OrderedMaps
open FragmentSynthesis.Programs
open FragmentSynthesis.Scopes
open FragmentSynthesis.Statement

/-- The state of a splice: the names replaced so far, the scope of the program, the lists of
candidates that were offered, and the fault that stopped it, if any. -/
structure Splice where
  renames : OrderedMap String String
  scope : Scope
  offers : List (List String)
  fault : Option Fault

/-- Picks a member of a list, given how many lists were offered before. -/
abbrev Chooser := Nat → List String → String

/-- Picks the first member whatever was offered before. -/
def pickFirst : Chooser :=
  fun _ offer => offer.headD ""

/-- A computation that splices. After a fault it leaves everything as it is. -/
abbrev SpliceM := StateM Splice

/-- Stops a splice at a fault, unless it has stopped before. -/
def stop (fault : Fault) : SpliceM Unit :=
  modify fun s => { s with fault := s.fault.or (some fault) }

/-- Records the replacement of a name together with the scope that declares it. -/
def Splice.record (s : Splice) (name replacement : String) : Except Fault Scope → Splice
  | .ok scope => { s with scope := scope, renames := s.renames.insert name replacement }
  | .error fault => { s with fault := some fault }

/-- The name a binder gets: its own, or a fresh one where that is taken. -/
def binderName (scope : Scope) (name fresh : String) : String :=
  if scope.isDeclared name then fresh else name

/-- Declares a counter for a loop of the fragment, under its own name if that is free. -/
def bindCounter (name : String) (inHeader : Bool) : SpliceM String := do
  let s ← get
  match s.fault with
  | some _ => return name
  | none =>
      -- This takes the place of what an earlier variable of the name was given.
      let replacement := binderName s.scope name s.scope.freshCounter
      set (s.record name replacement (s.scope.addCounter replacement inHeader))
      return replacement

/-- Declares an element for a loop of the fragment, under its own name if that is free. -/
def bindElement (name type : String) : SpliceM String := do
  let s ← get
  match s.fault with
  | some _ => return name
  | none =>
      let replacement := binderName s.scope name s.scope.freshElement
      set (s.record name replacement (s.scope.addElement replacement type))
      return replacement

/-- The parameters and fields of a type. -/
def candidates (scope : Scope) (type : String) : List String :=
  (scope.parameters.entries.filter fun entry => entry.2 == type).map Prod.fst

/-- The name of a variable in the program. A name with a replacement takes it, and a parameter or
field of the right type stays; else one of the right type is chosen, or a local declared. -/
def spliceName (choose : Chooser) (name type : String) : SpliceM String := do
  let s ← get
  match s.fault with
  | some _ => return name
  | none =>
      match s.renames.get? name with
      | some replacement => return replacement
      | none =>
          if s.scope.parameters.get? name = some type then return name
          else
            let offer := candidates s.scope type
            if offer.isEmpty then
              let replacement := s.scope.freshLocal
              set (s.record name replacement (s.scope.addLocal replacement type))
              return replacement
            else
              let replacement := choose s.offers.length offer
              set { s with
                renames := s.renames.insert name replacement
                offers := s.offers ++ [offer] }
              return replacement

mutual

/-- Replaces the names of an expression from left to right. -/
def spliceExpr (choose : Chooser) : Expr → SpliceM Expr
  | .literal value type => return .literal value type
  | .variable name type => do
      let name ← spliceName choose name type
      return .variable name type
  | .unary op operand => do
      let operand ← spliceExpr choose operand
      return .unary op operand
  | .binary op left right => do
      let left ← spliceExpr choose left
      let right ← spliceExpr choose right
      return .binary op left right
  | .use component none args => do
      let args ← spliceArgs choose args
      return .use component none args
  | .use component (some receiver) args => do
      let receiver ← spliceExpr choose receiver
      let args ← spliceArgs choose args
      return .use component (some receiver) args
  | .foreign f => do
      stop (.unknownNode f.kindName .mergeCompatible)
      return .foreign f

def spliceArgs (choose : Chooser) : List Expr → SpliceM (List Expr)
  | [] => return []
  | e :: rest => do
      let e ← spliceExpr choose e
      let rest ← spliceArgs choose rest
      return e :: rest

end

/-- Replaces the names of a test and of what an open test remembers. -/
def spliceTest (choose : Chooser) : Test → SpliceM Test
  | .concrete e => do
      let e ← spliceExpr choose e
      return .concrete e
  | .angelic none => return .angelic none
  | .angelic (some e) => do
      let e ← spliceExpr choose e
      return .angelic (some e)
  | .blank => return .blank
  | .unknown => do
      stop (.unknownNode Test.unknown.kindName .concrete)
      return .unknown

/-- Only a counting loop binds its counter. -/
def spliceHead : LoopHead → SpliceM LoopHead
  | .counting counter declared => do
      let counter ← bindCounter counter declared
      return .counting counter declared
  | .testing counter => return .testing counter

mutual

/-- Replaces the names of a statement. Loops declare their counter or element before anything in
them is replaced. -/
def spliceStmt (choose : Chooser) : Stmt → SpliceM Stmt
  | .assign indent target value => do
      let target ← spliceExpr choose target
      let value ← spliceExpr choose value
      return .assign indent target value
  | .call indent function => do
      let function ← spliceExpr choose function
      return .call indent function
  | .branch indent test body => do
      let test ← spliceTest choose test
      let body ← spliceBlock choose body
      return .branch indent test body
  | .loop indent head test body => do
      let head ← spliceHead head
      let test ← spliceTest choose test
      let body ← spliceBlock choose body
      return .loop indent head test body
  | .foreach indent name type container body => do
      let name ← bindElement name type
      let container ← spliceExpr choose container
      let body ← spliceBlock choose body
      return .foreach indent name type container body
  | .foreign f => do
      stop (.unknownNode f.kindName .mergeCompatible)
      return .foreign f

def spliceBlock (choose : Chooser) : List Stmt → SpliceM (List Stmt)
  | [] => return []
  | s :: rest => do
      let s ← spliceStmt choose s
      let rest ← spliceBlock choose rest
      return s :: rest

end

/-- Replaces the names of an expression or a statement. Other nodes are refused. -/
def spliceNode (choose : Chooser) : Node → SpliceM Node
  | .expr e => do
      let e ← spliceExpr choose e
      return .expr e
  | .stmt s => do
      let s ← spliceStmt choose s
      return .stmt s
  | n => do
      stop (.unknownNode n.kindName .mergeCompatible)
      return n

/-- What a splice leaves behind: the fitted fragment, the map of names, the program with its new
declarations, what was offered to the chooser, and the fault that stopped it, if any. -/
structure Fitted where
  fragment : Node
  renames : OrderedMap String String
  program : Program
  offers : List (List String)
  fault : Option Fault

/-- Makes the names of a fragment those of a program, starting from some replacements. The result
has the fragment and the program with what was declared. -/
def fit (choose : Chooser) (renames : OrderedMap String String) (p : Program) (fragment : Node) :
    Fitted :=
  let (fragment, s) := (spliceNode choose fragment).run ⟨renames, p.scope, [], none⟩
  ⟨fragment, s.renames, { p with scope := s.scope }, s.offers, s.fault⟩

end FragmentSynthesis.Splicing
