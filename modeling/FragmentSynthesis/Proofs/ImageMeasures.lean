import FragmentSynthesis.Proofs.NameImages
import FragmentSynthesis.Weight

namespace FragmentSynthesis.Proofs.ImageMeasures

open FragmentSynthesis.Expression
open FragmentSynthesis.Faults
open FragmentSynthesis.NameSets
open FragmentSynthesis.Programs
open FragmentSynthesis.Proofs.KnownFragments
open FragmentSynthesis.Proofs.NameImages
open FragmentSynthesis.Statement
open FragmentSynthesis.UsedNames
open FragmentSynthesis.Weight

section

variable (f : String → String)

mutual

theorem weight_mapNames (e : Expr) : weight (mapNames f e) = weight e := by
  cases e with
  | literal value type => rfl
  | «variable» name type => rfl
  | unary op operand => simp only [mapNames, weight, weight_mapNames operand]
  | binary op left right =>
      simp only [mapNames, weight, weight_mapNames left, weight_mapNames right]
  | use component receiver args =>
      cases receiver with
      | none => simp only [mapNames, weight, weightEach_mapNames args]
      | some receiver =>
          simp only [mapNames, weight, weight_mapNames receiver, weightEach_mapNames args]
  | foreign g => rfl

theorem weightEach_mapNames (args : List Expr) :
    weightEach (mapNamesEach f args) = weightEach args := by
  cases args with
  | nil => rfl
  | cons e rest =>
      simp only [mapNamesEach, weightEach, weight_mapNames e, weightEach_mapNames rest]

end

theorem testExpression_mapNames (test : Test) :
    testExpression (mapNamesInTest f test) =
      (testExpression test).map (Option.map (mapNames f)) := by
  cases test with
  | concrete e => rfl
  | angelic remembered => cases remembered <;> rfl
  | blank => rfl
  | unknown => rfl

theorem weightOfTest_mapNames (test : Test) :
    weightOfTest (mapNamesInTest f test) = weightOfTest test := by
  cases test with
  | concrete e => exact weight_mapNames f e
  | angelic remembered => cases remembered <;> rfl
  | blank => rfl
  | unknown => rfl

mutual

theorem weightOfStmt_mapNames (s : Stmt) :
    weightOfStmt (mapNamesInStmt f s) = weightOfStmt s := by
  cases s with
  | assign indent target value => simp only [mapNamesInStmt, weightOfStmt, weight_mapNames]
  | call indent function => exact weight_mapNames f function
  | branch indent test body =>
      simp only [mapNamesInStmt, weightOfStmt, weightOfTest_mapNames, weightOfBlock_mapNames body]
  | loop indent head test body =>
      simp only [mapNamesInStmt, weightOfStmt, weightOfTest_mapNames, weightOfBlock_mapNames body]
  | foreach indent name type container body =>
      simp only [mapNamesInStmt, weightOfStmt, weight_mapNames, weightOfBlock_mapNames body]
  | foreign g => rfl

theorem weightOfBlock_mapNames (body : List Stmt) :
    weightOfBlock (mapNamesInBlock f body) = weightOfBlock body := by
  cases body with
  | nil => rfl
  | cons s rest =>
      simp only [mapNamesInBlock, weightOfBlock, weightOfStmt_mapNames s,
        weightOfBlock_mapNames rest]

end

theorem weightOfNode_mapNames (n : Node) : weightOfNode (mapNamesInNode f n) = weightOfNode n := by
  cases n with
  | expr e => exact weight_mapNames f e
  | stmt s => exact weightOfStmt_mapNames f s
  | text _ => rfl
  | absent => rfl

theorem weightOfTop_mapNames (body : List Stmt) :
    weightOfTop (mapNamesInBlock f body) = weightOfTop body := by
  induction body with
  | nil => rfl
  | cons s rest ih =>
      have hfirst : weightAtTop (mapNamesInStmt f s) = weightAtTop s := by
        cases s with
        | foreign g => rfl
        | _ => exact weightOfStmt_mapNames f _
      simp only [mapNamesInBlock, weightOfTop, hfirst, ih]

theorem weightOfResult_mapNames (e : Expr) : weightOfResult (mapNames f e) = weightOfResult e := by
  cases e with
  | foreign g => rfl
  | use component receiver args =>
      cases receiver with
      | none => exact weight_mapNames f (.use component none args)
      | some receiver => exact weight_mapNames f (.use component (some receiver) args)
  | _ => exact weight_mapNames f _

/-- A program weighs the same as long as no two of its locals become one. -/
theorem weightOfProgram_mapNames {p : Program}
    (h : (p.scope.rename f).locals.size = p.scope.locals.size) :
    weightOfProgram (mapNamesInProgram f p) = weightOfProgram p := by
  cases hresult : p.result with
  | none =>
      simp only [weightOfProgram, mapNamesInProgram, weightOfTop_mapNames, hresult, Option.map_none,
        h]
  | some e =>
      simp only [weightOfProgram, mapNamesInProgram, weightOfTop_mapNames, hresult, Option.map_some,
        weightOfResult_mapNames, h]

theorem openTest_mapNames (test : Test) : openTest (mapNamesInTest f test) = openTest test := by
  cases test with
  | angelic remembered => cases remembered <;> rfl
  | _ => rfl

mutual

theorem openTests_mapNames (s : Stmt) : openTests (mapNamesInStmt f s) = openTests s := by
  cases s with
  | assign indent target value => rfl
  | call indent function => rfl
  | branch indent test body =>
      simp only [mapNamesInStmt, openTests, openTest_mapNames, openTestsInBlock_mapNames body]
  | loop indent head test body =>
      simp only [mapNamesInStmt, openTests, openTest_mapNames, openTestsInBlock_mapNames body]
  | foreach indent name type container body => exact openTestsInBlock_mapNames body
  | foreign g => rfl

theorem openTestsInBlock_mapNames (body : List Stmt) :
    openTestsInBlock (mapNamesInBlock f body) = openTestsInBlock body := by
  cases body with
  | nil => rfl
  | cons s rest =>
      simp only [mapNamesInBlock, openTestsInBlock, openTests_mapNames s,
        openTestsInBlock_mapNames rest]

end

theorem angelicCount_mapNames (p : Program) :
    angelicCount (mapNamesInProgram f p) = angelicCount p :=
  openTestsInBlock_mapNames f p.statements

theorem images_append {x y : Except Fault (List String)} :
    (do let names ← x.map (List.map f); let others ← y.map (List.map f); return names ++ others) =
      (do let names ← x; let others ← y; return names ++ others : Except Fault _).map
        (List.map f) := by
  cases x with
  | error fault => rfl
  | ok names =>
      cases y with
      | error fault => rfl
      | ok others => exact congrArg Except.ok List.map_append.symm

theorem images_concat {x y : Except Fault (List String)} (last : List String) :
    (do
      let names ← x.map (List.map f)
      let others ← y.map (List.map f)
      return names ++ others ++ last.map f) =
      (do let names ← x; let others ← y; return names ++ others ++ last : Except Fault _).map
        (List.map f) := by
  cases x with
  | error fault => rfl
  | ok names =>
      cases y with
      | error fault => rfl
      | ok others =>
          have h : names.map f ++ others.map f ++ last.map f = (names ++ others ++ last).map f := by
            rw [List.map_append, List.map_append]
          exact congrArg Except.ok h

mutual

theorem usedNames_mapNames (e : Expr) :
    usedNames (mapNames f e) = (usedNames e).map (List.map f) := by
  cases e with
  | literal value type => rfl
  | «variable» name type => rfl
  | unary op operand => exact usedNames_mapNames operand
  | binary op left right =>
      rw [mapNames, usedNames, usedNames_mapNames left, usedNames_mapNames right]
      exact images_append f
  | use component receiver args =>
      cases receiver with
      | none => exact usedNamesEach_mapNames args
      | some receiver =>
          rw [mapNames, usedNames, usedNames_mapNames receiver, usedNamesEach_mapNames args]
          exact images_append f
  | foreign g => rfl

theorem usedNamesEach_mapNames (args : List Expr) :
    usedNamesEach (mapNamesEach f args) = (usedNamesEach args).map (List.map f) := by
  cases args with
  | nil => rfl
  | cons e rest =>
      rw [mapNamesEach, usedNamesEach, usedNames_mapNames e, usedNamesEach_mapNames rest]
      exact images_append f

end

theorem usedNamesInTest_mapNames (test : Test) :
    usedNamesInTest (mapNamesInTest f test) = (usedNamesInTest test).map (List.map f) := by
  cases test with
  | concrete e => exact usedNames_mapNames f e
  | angelic remembered => cases remembered <;> rfl
  | blank => rfl
  | unknown => rfl

variable (withCounters : Bool)

theorem counterNames_mapNames (head : LoopHead) :
    counterNames withCounters (mapNamesInHead f head) =
      (counterNames withCounters head).map f := by
  cases head with
  | counting counter declared => cases withCounters <;> rfl
  | testing counter => rfl

mutual

theorem usedNamesInStmt_mapNames (s : Stmt) :
    usedNamesInStmt withCounters (mapNamesInStmt f s) =
      (usedNamesInStmt withCounters s).map (List.map f) := by
  cases s with
  | assign indent target value =>
      rw [mapNamesInStmt, usedNamesInStmt, usedNames_mapNames, usedNames_mapNames]
      exact images_append f
  | call indent function => exact usedNames_mapNames f function
  | branch indent test body =>
      rw [mapNamesInStmt, usedNamesInStmt, usedNamesInTest_mapNames, usedNamesInBlock_mapNames body]
      exact images_append f
  | loop indent head test body =>
      rw [mapNamesInStmt, usedNamesInStmt, usedNamesInTest_mapNames, usedNamesInBlock_mapNames body,
        counterNames_mapNames]
      exact images_concat f _
  | foreach indent name type container body =>
      rw [mapNamesInStmt, usedNamesInStmt, usedNames_mapNames, usedNamesInBlock_mapNames body]
      exact images_concat f [name]
  | foreign g => rfl

theorem usedNamesInBlock_mapNames (body : List Stmt) :
    usedNamesInBlock withCounters (mapNamesInBlock f body) =
      (usedNamesInBlock withCounters body).map (List.map f) := by
  cases body with
  | nil => rfl
  | cons s rest =>
      rw [mapNamesInBlock, usedNamesInBlock, usedNamesInStmt_mapNames s,
        usedNamesInBlock_mapNames rest]
      exact images_append f

end

theorem map_insert (s : NameSet) (name : String) :
    (s.insert name).map f = (s.map f).insert (f name) := by
  by_cases hname : name ∈ s.names
  · have himage : f name ∈ (s.map f).names :=
      (NameSet.mem_ofList _ _).mpr (List.mem_map_of_mem hname)
    simp only [NameSet.insert, if_pos hname, if_pos himage]
  · have hnames : (s.insert name).names = s.names ++ [name] := if_neg hname
    rw [NameSet.map, hnames, List.map_append, NameSet.ofList, List.foldl_append]
    rfl

theorem foldl_insert_map (names : List String) (s : NameSet) :
    (names.map f).foldl NameSet.insert (s.map f) = (names.foldl NameSet.insert s).map f := by
  induction names generalizing s with
  | nil => rfl
  | cons name rest ih => rw [List.map_cons, List.foldl_cons, List.foldl_cons, ← map_insert, ih]

theorem ofList_map (names : List String) :
    NameSet.ofList (names.map f) = (NameSet.ofList names).map f :=
  foldl_insert_map f names NameSet.empty

theorem usedVariables_mapNames (p : Program) :
    usedVariables withCounters (mapNamesInProgram f p) =
      (usedVariables withCounters p).map (NameSet.map f) := by
  cases hresult : p.result with
  | none =>
      simp only [usedVariables, mapNamesInProgram, usedNamesInBlock_mapNames, hresult,
        Option.map_none]
      cases usedNamesInBlock withCounters p.statements with
      | error fault => rfl
      | ok names => exact congrArg Except.ok (ofList_map f names)
  | some e =>
      simp only [usedVariables, mapNamesInProgram, usedNamesInBlock_mapNames, hresult,
        Option.map_some, usedNames_mapNames]
      cases usedNamesInBlock withCounters p.statements with
      | error fault => rfl
      | ok names =>
          cases usedNames e with
          | error fault => rfl
          | ok others =>
              have h : names.map f ++ others.map f = (names ++ others).map f :=
                List.map_append.symm
              exact congrArg Except.ok ((congrArg NameSet.ofList h).trans (ofList_map f _))

end

/-- A measure has a value and no fault. -/
def Answers {α : Type} (x : Except Fault α) : Prop :=
  ∃ a, x = .ok a

theorem Answers.map {α β : Type} {x : Except Fault α} (hx : Answers x) (f : α → β) :
    Answers (do let a ← x; return f a) := by
  obtain ⟨a, rfl⟩ := hx
  exact ⟨f a, rfl⟩

theorem Answers.both {α β γ : Type} {x : Except Fault α} {y : Except Fault β} (hx : Answers x)
    (hy : Answers y) (f : α → β → γ) : Answers (do let a ← x; let b ← y; return f a b) := by
  obtain ⟨a, rfl⟩ := hx
  obtain ⟨b, rfl⟩ := hy
  exact ⟨f a b, rfl⟩

theorem Answers.image {α : Type} {x y : Except Fault α} (hx : Answers x) {f : α → α}
    (h : y = x.map f) : ∃ a, x = .ok a ∧ y = .ok (f a) := by
  obtain ⟨a, rfl⟩ := hx
  exact ⟨a, rfl, h⟩

theorem Answers.same {α : Type} {x y : Except Fault α} (hx : Answers x) (h : y = x) :
    ∃ a, x = .ok a ∧ y = .ok a := by
  obtain ⟨a, rfl⟩ := hx
  exact ⟨a, rfl, h⟩

mutual

theorem weight_answers (e : Expr) (he : e.isKnown = true) : Answers (weight e) := by
  cases e with
  | literal value type => exact ⟨1, rfl⟩
  | «variable» name type => exact ⟨1, rfl⟩
  | unary op operand => exact (weight_answers operand he).map _
  | binary op left right =>
      obtain ⟨hleft, hright⟩ := Bool.and_eq_true_iff.mp he
      exact (weight_answers left hleft).both (weight_answers right hright) _
  | use component receiver args =>
      cases receiver with
      | none => exact (weightEach_answers args he).map _
      | some receiver =>
          obtain ⟨hreceiver, hargs⟩ := Bool.and_eq_true_iff.mp he
          exact (weight_answers receiver hreceiver).both (weightEach_answers args hargs) _
  | foreign g => cases he

theorem weightEach_answers (args : List Expr) (hargs : argsKnown args = true) :
    Answers (weightEach args) := by
  cases args with
  | nil => exact ⟨0, rfl⟩
  | cons e rest =>
      obtain ⟨he, hrest⟩ := Bool.and_eq_true_iff.mp hargs
      exact (weight_answers e he).both (weightEach_answers rest hrest) _

end

theorem weightOfTest_answers {test : Test} (htest : test.isKnown = true) :
    Answers (weightOfTest test) := by
  cases test with
  | concrete e => exact weight_answers e htest
  | angelic remembered => exact ⟨0, rfl⟩
  | blank => cases htest
  | unknown => cases htest

mutual

theorem measures_answer (s : Stmt) (hs : s.isKnown = true) :
    Answers (weightOfStmt s) ∧ Answers (openTests s) := by
  cases s with
  | assign indent target value =>
      obtain ⟨-, hvalue⟩ := Bool.and_eq_true_iff.mp hs
      exact ⟨(weight_answers value hvalue).map _, 0, rfl⟩
  | call indent function => exact ⟨weight_answers function hs, 0, rfl⟩
  | branch indent test body =>
      obtain ⟨htest, hbody⟩ := Bool.and_eq_true_iff.mp hs
      obtain ⟨hweight, hopen⟩ := blockMeasures_answer body hbody
      exact ⟨(weightOfTest_answers htest).both hweight _, hopen.map _⟩
  | loop indent head test body =>
      obtain ⟨htest, hbody⟩ := Bool.and_eq_true_iff.mp hs
      obtain ⟨hweight, hopen⟩ := blockMeasures_answer body hbody
      exact ⟨(weightOfTest_answers htest).both hweight _, hopen.map _⟩
  | foreach indent name type container body =>
      obtain ⟨hcontainer, hbody⟩ := Bool.and_eq_true_iff.mp hs
      obtain ⟨hweight, hopen⟩ := blockMeasures_answer body hbody
      exact ⟨(weight_answers container hcontainer).both hweight _, hopen⟩
  | foreign g => cases hs

theorem blockMeasures_answer (body : List Stmt) (hbody : blockKnown body = true) :
    Answers (weightOfBlock body) ∧ Answers (openTestsInBlock body) := by
  cases body with
  | nil => exact ⟨⟨0, rfl⟩, 0, rfl⟩
  | cons s rest =>
      obtain ⟨hs, hrest⟩ := Bool.and_eq_true_iff.mp hbody
      obtain ⟨hweight, hopen⟩ := measures_answer s hs
      obtain ⟨hothers, hothersOpen⟩ := blockMeasures_answer rest hrest
      exact ⟨hweight.both hothers _, hopen.both hothersOpen _⟩

end

theorem weightOfTop_eq {body : List Stmt} (hbody : blockKnown body = true) :
    weightOfTop body = weightOfBlock body := by
  induction body with
  | nil => rfl
  | cons s rest ih =>
      obtain ⟨hs, hrest⟩ := Bool.and_eq_true_iff.mp hbody
      have hfirst : weightAtTop s = weightOfStmt s := by
        cases s with
        | foreign g => cases hs
        | _ => rfl
      rw [weightOfTop, weightOfBlock, hfirst, ih hrest]

theorem weightOfResult_eq {e : Expr} (he : e.isKnown = true) : weightOfResult e = weight e := by
  cases e with
  | foreign g => cases he
  | _ => rfl

theorem weightOfNode_answers {n : Node} (hn : nodeKnown n = true) : Answers (weightOfNode n) := by
  cases n with
  | expr e => exact weight_answers e hn
  | stmt s => exact (measures_answer s hn).1
  | text _ => cases hn
  | absent => cases hn

variable {p : Program}

theorem weightOfProgram_answers (hp : p.isKnown = true) : Answers (weightOfProgram p) := by
  obtain ⟨hbody, hresult⟩ := Bool.and_eq_true_iff.mp hp
  obtain ⟨body, hweight⟩ := (blockMeasures_answer p.statements hbody).1
  rw [weightOfProgram, weightOfTop_eq hbody, hweight]
  cases h : p.result with
  | none => exact ⟨_, rfl⟩
  | some e =>
      rw [h] at hresult
      obtain ⟨result, he⟩ := weight_answers e hresult
      simp only [weightOfResult_eq hresult, he]
      exact ⟨_, rfl⟩

theorem angelicCount_answers (hp : p.isKnown = true) : Answers (angelicCount p) :=
  (blockMeasures_answer p.statements (Bool.and_eq_true_iff.mp hp).1).2

theorem usedVariables_answers (withCounters : Bool) (hp : p.isKnown = true) :
    Answers (usedVariables withCounters p) := by
  obtain ⟨hbody, hresult⟩ := Bool.and_eq_true_iff.mp hp
  obtain ⟨names, hnames, -⟩ := usedNamesInBlock_among withCounters p.statements hbody
  rw [usedVariables, hnames]
  cases h : p.result with
  | none => exact ⟨_, rfl⟩
  | some e =>
      rw [h] at hresult
      obtain ⟨others, hothers, -⟩ := usedNames_among e hresult
      simp only [hothers]
      exact ⟨_, rfl⟩

end FragmentSynthesis.Proofs.ImageMeasures
