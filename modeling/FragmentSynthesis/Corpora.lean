import FragmentSynthesis.Matching

namespace FragmentSynthesis.Corpora

open FragmentSynthesis.Expression
open FragmentSynthesis.ExpressionText
open FragmentSynthesis.Faults
open FragmentSynthesis.OrderedMaps
open FragmentSynthesis.Programs
open FragmentSynthesis.Statement
open FragmentSynthesis.StatementText
open FragmentSynthesis.Traversal
open FragmentSynthesis.TypeRefs

/-- The expressions are listed by the normal form of their type, types in the order of their first
expression. -/
structure Corpus where
  programs : List Program
  programKeys : List String
  expressions : OrderedMap TypeRef (List Expr)
  statements : List Stmt
  counts : OrderedMap String Nat

def Corpus.empty : Corpus :=
  ⟨[], [], OrderedMap.empty, [], OrderedMap.empty⟩

/-- The number of distinct fragments. -/
def Corpus.size (c : Corpus) : Nat :=
  c.counts.size

/-- Counts one more fragment of an encoding. -/
def Corpus.tally (c : Corpus) (key : String) : Corpus :=
  { c with counts := c.counts.alter key 0 (· + 1) }

/-- Takes a statement in under its encoding, or only counts it if one of that encoding is there. -/
def Corpus.addStatement (c : Corpus) (key : String) (s : Stmt) : Corpus :=
  if c.counts.contains key then c.tally key
  else { c.tally key with statements := c.statements ++ [s] }

/-- Takes an expression in under its type, or only counts it if one of its encoding is there. -/
def Corpus.addExpression (c : Corpus) (key : String) (e : Expr) : Corpus :=
  if c.counts.contains key then c.tally key
  else { c.tally key with expressions := c.expressions.alter e.type.normal [] (· ++ [e]) }

/-- Whether an expression can be listed under its type, or need not be, being there already. -/
def Corpus.canList (c : Corpus) (key : String) (e : Expr) : Bool :=
  c.counts.contains key || e.type.isKey

/-- Takes statements in, as long as they have an encoding. -/
def Corpus.addStatements (c : Corpus) : List Stmt → Corpus × Option Fault
  | [] => (c, none)
  | s :: rest =>
      match encodeStmt s with
      | .ok key => (c.addStatement key s).addStatements rest
      | .error fault => (c, some fault)

/-- Takes expressions in, as long as they have an encoding and can be listed. -/
def Corpus.addExpressions (c : Corpus) : List Expr → Corpus × Option Fault
  | [] => (c, none)
  | e :: rest =>
      match encode e with
      | .ok key =>
          if c.canList key e then (c.addExpression key e).addExpressions rest
          else (c.tally key, some .wrongShape)
      | .error fault => (c, some fault)

/-- Takes in the statements of a harvest and then its expressions, up to the first fault. -/
def Corpus.addHarvest (c : Corpus) (h : Harvest) : Corpus × Option Fault :=
  match c.addStatements h.statements with
  | (c, none) => c.addExpressions h.expressions
  | (c, some fault) => (c, some fault)

/-- Keeps a copy of a program and harvests it. A program that cannot be harvested is kept all the
same. -/
def Corpus.keep (c : Corpus) (copy : Program) : Corpus × Except Fault Bool :=
  let c := { c with programs := c.programs ++ [copy] }
  match fragments copy with
  | .error fault => (c, .error fault)
  | .ok harvest =>
      match c.addHarvest harvest with
      | (c, none) => (c, .ok true)
      | (c, some fault) => (c, .error fault)

/-- Remembers a program and says whether it is new. One that cannot be copied counts as seen from
then on, but is not kept. -/
def Corpus.remember (c : Corpus) (p : Program) : Corpus × Except Fault Bool :=
  match encodeProgram p with
  | .error fault => (c, .error fault)
  | .ok key =>
      if key ∈ c.programKeys then (c, .ok false)
      else
        let c := { c with programKeys := c.programKeys ++ [key] }
        match p.copy with
        | .error fault => (c, .error fault)
        | .ok copy => c.keep copy

/-- How often a fragment of this encoding was harvested. A mere text never was. -/
def Corpus.frequency (c : Corpus) (fragment : Node) : Except Fault Nat :=
  match fragment with
  | .text _ => .ok 0
  | fragment => do
      let key ← encodeNode fragment
      return (c.counts.get? key).getD 0

/-- The expressions kept for a type, which has to be plain data that can be a key. -/
def Corpus.expressionsOfType (c : Corpus) (type : TypeRef) : Except Fault (List Expr) :=
  if type.isKey then .ok ((c.expressions.get? type.normal).getD []) else .error .wrongShape

/-- The distinct fragments: expressions type by type, then statements. -/
def Corpus.all (c : Corpus) : List Node :=
  c.expressions.values.flatten.map Node.expr ++ c.statements.map Node.stmt

def Corpus.describe (c : Corpus) : String :=
  "FragmentLibrary(" ++ toString c.programs.length ++ " programs, " ++ toString c.size
    ++ " fragments)"

end FragmentSynthesis.Corpora
