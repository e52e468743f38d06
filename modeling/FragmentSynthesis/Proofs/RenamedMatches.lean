import FragmentSynthesis.Proofs.ComposedRenamings
import FragmentSynthesis.Proofs.UsefulnessGrowth
import Mathlib.Data.Set.Operations

namespace FragmentSynthesis.Proofs.RenamedMatches

open FragmentSynthesis.Expression
open FragmentSynthesis.Faults
open FragmentSynthesis.Matching
open FragmentSynthesis.OrderedMaps
open FragmentSynthesis.Programs
open FragmentSynthesis.Proofs.ComposedRenamings
open FragmentSynthesis.Proofs.GrownTrees
open FragmentSynthesis.Proofs.ImageMeasures
open FragmentSynthesis.Proofs.KnownFragments
open FragmentSynthesis.Proofs.LargestCounts
open FragmentSynthesis.Proofs.MatchCounts
open FragmentSynthesis.Proofs.NameImages
open FragmentSynthesis.Proofs.UsefulnessGrowth
open FragmentSynthesis.Renaming
open FragmentSynthesis.Statement
open FragmentSynthesis.StoppingChanges
open FragmentSynthesis.Weight

variable {f : String → String}

/-- A name of the first list and one of the second have an image in common only if they are one. -/
def ToldApart (f : String → String) (names others : List String) : Prop :=
  ∀ name ∈ names, ∀ other ∈ others, f name = f other → name = other

section

variable {names names' others others' : List String}

theorem ToldApart.mono (h : ToldApart f names others) (hnames : names' ⊆ names)
    (hothers : others' ⊆ others) : ToldApart f names' others' :=
  fun name hname other hother => h name (hnames hname) other (hothers hother)

theorem ToldApart.first (h : ToldApart f (names ++ names') (others ++ others')) :
    ToldApart f names others :=
  h.mono (List.subset_append_left names names') (List.subset_append_left others others')

theorem ToldApart.second (h : ToldApart f (names ++ names') (others ++ others')) :
    ToldApart f names' others' :=
  h.mono (List.subset_append_right names names') (List.subset_append_right others others')

theorem ToldApart.fromFirst (h : ToldApart f names (others ++ others')) :
    ToldApart f names others :=
  h.mono (List.Subset.refl names) (List.subset_append_left others others')

theorem ToldApart.fromSecond (h : ToldApart f names (others ++ others')) :
    ToldApart f names others' :=
  h.mono (List.Subset.refl names) (List.subset_append_right others others')

end

mutual

theorem count_mapNames (x e : Expr) (h : ToldApart f (namesIn x) (namesIn e)) :
    count (mapNames f x) (mapNames f e) = count x e := by
  cases x with
  | literal value type =>
      cases e with
      | use component receiver args => cases receiver <;> rfl
      | _ => rfl
  | «variable» name type =>
      cases e with
      | «variable» other otherType =>
          have hname : f name = f other ↔ name = other := by
            constructor
            · exact h name (List.mem_singleton.mpr rfl) other (List.mem_singleton.mpr rfl)
            · exact congrArg f
          simp only [mapNames, count, hname]
      | use component receiver args => cases receiver <;> rfl
      | _ => rfl
  | unary op operand =>
      cases e with
      | unary other operand' => simp only [mapNames, count, count_mapNames operand operand' h]
      | use component receiver args => cases receiver <;> rfl
      | _ => rfl
  | binary op left right =>
      cases e with
      | binary other left' right' =>
          simp only [mapNames, count, count_mapNames left left' h.first,
            count_mapNames right right' h.second]
      | use component receiver args => cases receiver <;> rfl
      | _ => rfl
  | use component receiver args =>
      cases e with
      | use other receiver' args' =>
          cases receiver with
          | none =>
              cases receiver' with
              | none => simp only [mapNames, count, countEach_mapNames args args' h]
              | some receiver' =>
                  simp only [mapNames, count, countEach_mapNames args args' h.fromSecond]
          | some receiver =>
              cases receiver' with
              | none =>
                  have hargs : ToldApart f (namesInEach args) (namesInEach args') :=
                    h.mono (List.subset_append_right _ _) (List.Subset.refl _)
                  simp only [mapNames, count, countEach_mapNames args args' hargs]
              | some receiver' =>
                  simp only [mapNames, count, count_mapNames receiver receiver' h.first,
                    countEach_mapNames args args' h.second]
      | _ => cases receiver <;> rfl
  | foreign g =>
      cases e with
      | use component receiver args => cases receiver <;> rfl
      | _ => rfl

theorem countEach_mapNames (args args' : List Expr)
    (h : ToldApart f (namesInEach args) (namesInEach args')) :
    countEach (mapNamesEach f args) (mapNamesEach f args') = countEach args args' := by
  cases args with
  | nil => rfl
  | cons e rest =>
      cases args' with
      | nil => rfl
      | cons e' rest' =>
          simp only [mapNamesEach, countEach, count_mapNames e e' h.first,
            countEach_mapNames rest rest' h.second]

end

theorem countTests_mapNames (x test : Test) (h : ToldApart f (namesInTest x) (namesInTest test)) :
    countTests (mapNamesInTest f x) (mapNamesInTest f test) = countTests x test := by
  cases x with
  | concrete e =>
      cases test with
      | concrete e' => exact count_mapNames e e' h
      | angelic remembered => cases remembered <;> rfl
      | blank => rfl
      | unknown => rfl
  | angelic remembered =>
      -- An open test counts nothing, whatever it remembers.
      simp only [countTests, testExpression_mapNames]
      cases test <;> rfl
  | blank =>
      simp only [countTests, testExpression_mapNames]
      cases test <;> rfl
  | unknown => rfl

mutual

theorem countStmt_mapNames (x s : Stmt) (h : ToldApart f (namesInStmt x) (namesInStmt s)) :
    countStmt (mapNamesInStmt f x) (mapNamesInStmt f s) = countStmt x s := by
  cases x with
  | assign indent target value =>
      cases s with
      | assign indent' target' value' =>
          simp only [mapNamesInStmt, countStmt, count_mapNames target target' h.first,
            count_mapNames value value' h.second]
      | _ => rfl
  | call indent function =>
      cases s with
      | call indent' function' => exact count_mapNames function function' h
      | _ => rfl
  | branch indent test body =>
      cases s with
      | branch indent' test' body' =>
          simp only [mapNamesInStmt, countStmt, countTests_mapNames test test' h.first,
            countBlock_mapNames body body' h.second]
      | _ => rfl
  | loop indent head test body =>
      cases s with
      | loop indent' head' test' body' =>
          simp only [mapNamesInStmt, countStmt, countTests_mapNames test test' h.second.first,
            countBlock_mapNames body body' h.second.second]
      | _ => rfl
  | foreach indent name type container body =>
      cases s with
      | foreach indent' name' type' container' body' =>
          have hparts := h.mono (List.subset_cons_self _ _) (List.subset_cons_self _ _)
          simp only [mapNamesInStmt, countStmt, count_mapNames container container' hparts.first,
            countBlock_mapNames body body' hparts.second]
      | _ => rfl
  | foreign g => cases s <;> rfl

theorem countBlock_mapNames (xs body : List Stmt)
    (h : ToldApart f (namesInBlock xs) (namesInBlock body)) :
    countBlock (mapNamesInBlock f xs) (mapNamesInBlock f body) = countBlock xs body := by
  cases xs with
  | nil => rfl
  | cons x rest =>
      cases body with
      | nil => rfl
      | cons s rest' =>
          simp only [mapNamesInBlock, countBlock, countStmt_mapNames x s h.first,
            countBlock_mapNames rest rest' h.second]

end

mutual

theorem search_mapNames (x e : Expr) (h : ToldApart f (namesIn x) (namesIn e)) :
    search (mapNames f x) (mapNames f e) = search x e := by
  have hhere := count_mapNames x e h
  cases e with
  | literal value type => exact hhere
  | «variable» name type => exact hhere
  | unary op operand =>
      simp only [mapNames] at hhere
      simp only [mapNames, search, hhere, search_mapNames x operand h]
  | binary op left right =>
      simp only [mapNames] at hhere
      simp only [mapNames, search, hhere, search_mapNames x left h.fromFirst,
        search_mapNames x right h.fromSecond]
  | use component receiver args =>
      cases receiver with
      | none =>
          simp only [mapNames] at hhere
          simp only [mapNames, search, hhere, searchEach_mapNames x args h]
      | some receiver =>
          simp only [mapNames] at hhere
          simp only [mapNames, search, hhere, search_mapNames x receiver h.fromFirst,
            searchEach_mapNames x args h.fromSecond]
  | foreign g =>
      simp only [mapNames] at hhere
      simp only [mapNames, search, hhere]

theorem searchEach_mapNames (x : Expr) (args : List Expr)
    (h : ToldApart f (namesIn x) (namesInEach args)) :
    searchEach (mapNames f x) (mapNamesEach f args) = searchEach x args := by
  cases args with
  | nil => rfl
  | cons e rest =>
      simp only [mapNamesEach, searchEach, search_mapNames x e h.fromFirst,
        searchEach_mapNames x rest h.fromSecond]

end

theorem searchTest_mapNames (x : Expr) (test : Test)
    (h : ToldApart f (namesIn x) (namesInTest test)) :
    searchTest (mapNames f x) (mapNamesInTest f test) = searchTest x test := by
  cases test with
  | concrete e => exact search_mapNames x e h
  | angelic remembered => cases remembered <;> rfl
  | blank => rfl
  | unknown => rfl

mutual

theorem searchInStmt_mapNames (x : Expr) (s : Stmt)
    (h : ToldApart f (namesIn x) (namesInStmt s)) :
    searchInStmt (mapNames f x) (mapNamesInStmt f s) = searchInStmt x s := by
  cases s with
  | assign indent target value =>
      simp only [mapNamesInStmt, searchInStmt, search_mapNames x target h.fromFirst,
        search_mapNames x value h.fromSecond]
  | call indent function => exact search_mapNames x function h
  | branch indent test body =>
      simp only [mapNamesInStmt, searchInStmt, searchTest_mapNames x test h.fromFirst,
        searchInBlock_mapNames x body h.fromSecond]
  | loop indent head test body =>
      simp only [mapNamesInStmt, searchInStmt, searchTest_mapNames x test h.fromSecond.fromFirst,
        searchInBlock_mapNames x body h.fromSecond.fromSecond]
  | foreach indent name type container body =>
      have hparts := h.mono (List.Subset.refl _) (List.subset_cons_self _ _)
      simp only [mapNamesInStmt, searchInStmt, search_mapNames x container hparts.fromFirst,
        searchInBlock_mapNames x body hparts.fromSecond]
  | foreign g => rfl

theorem searchInBlock_mapNames (x : Expr) (body : List Stmt)
    (h : ToldApart f (namesIn x) (namesInBlock body)) :
    searchInBlock (mapNames f x) (mapNamesInBlock f body) = searchInBlock x body := by
  cases body with
  | nil => rfl
  | cons s rest =>
      simp only [mapNamesInBlock, searchInBlock, searchInStmt_mapNames x s h.fromFirst,
        searchInBlock_mapNames x rest h.fromSecond]

end

mutual

theorem searchStmt_mapNames (x s : Stmt) (h : ToldApart f (namesInStmt x) (namesInStmt s)) :
    searchStmt (mapNamesInStmt f x) (mapNamesInStmt f s) = searchStmt x s := by
  have hhere := countStmt_mapNames x s h
  cases s with
  | assign indent target value => exact hhere
  | call indent function => exact hhere
  | branch indent test body =>
      simp only [mapNamesInStmt] at hhere
      simp only [mapNamesInStmt, searchStmt, hhere, searchBlock_mapNames x body h.fromSecond]
  | loop indent head test body =>
      simp only [mapNamesInStmt] at hhere
      simp only [mapNamesInStmt, searchStmt, hhere,
        searchBlock_mapNames x body h.fromSecond.fromSecond]
  | foreach indent name type container body =>
      have hparts := h.mono (List.Subset.refl _) (List.subset_cons_self _ _)
      simp only [mapNamesInStmt] at hhere
      simp only [mapNamesInStmt, searchStmt, hhere, searchBlock_mapNames x body hparts.fromSecond]
  | foreign g =>
      simp only [mapNamesInStmt] at hhere
      simp only [mapNamesInStmt, searchStmt, hhere]

theorem searchBlock_mapNames (x : Stmt) (body : List Stmt)
    (h : ToldApart f (namesInStmt x) (namesInBlock body)) :
    searchBlock (mapNamesInStmt f x) (mapNamesInBlock f body) = searchBlock x body := by
  cases body with
  | nil => rfl
  | cons s rest =>
      simp only [mapNamesInBlock, searchBlock, searchStmt_mapNames x s h.fromFirst,
        searchBlock_mapNames x rest h.fromSecond]

end

theorem bestMatch_mapNames (x : Node) (p : Program)
    (h : ToldApart f (namesInNode x) (namesInBlock p.statements ++ namesInResult p.result)) :
    bestMatch (mapNamesInNode f x) (mapNamesInProgram f p) = bestMatch x p := by
  cases x with
  | expr e =>
      have hbody := searchInBlock_mapNames e p.statements h.fromFirst
      cases hresult : p.result with
      | none =>
          simp only [bestMatch, mapNamesInNode, mapNamesInProgram, hbody, hresult, Option.map_none]
      | some result =>
          rw [hresult] at h
          have hfound := search_mapNames e result h.fromSecond
          simp only [bestMatch, mapNamesInNode, mapNamesInProgram, hbody, hresult, Option.map_some,
            hfound]
  | stmt s => exact searchBlock_mapNames s p.statements h.fromFirst
  | text _ => rfl
  | absent => rfl

/-- A renaming of a fragment and a program alike, under which no two of their names become one,
changes neither the best match nor the weight, and so it does not change the usefulness. -/
theorem usefulness_renamed (m : OrderedMap String String) (x : Node) (p : Program)
    (hx : nodeKnown x = true) (hp : p.isKnown = true) (hfragment : NodeSearchable x)
    (hprogram : ProgramSearchable p)
    (h : Set.InjOn (extend m) {name | name ∈ namesInNode x ∨ name ∈ namesInProgram p}) :
    ∃ y q best weight score, finish (renameNode (extend m) x) = (y, none) ∧
      finish (renameProgram (extend m) p) = (q, none) ∧
      (bestMatch x p = .ok best ∧ bestMatch y q = .ok best) ∧
      (weightOfNode x = .ok weight ∧ weightOfNode y = .ok weight) ∧
      (usefulness x p = .ok score ∧ usefulness y q = .ok score) := by
  obtain ⟨best, -, hbest, -⟩ := bestMatch_noMore hfragment (.refl p) hprogram
  have hweight := weightOfNode_of_searchable hfragment
  have hapart : ToldApart (extend m) (namesInNode x)
      (namesInBlock p.statements ++ namesInResult p.result) := by
    intro name hname other hother heq
    exact h (.inl hname) (.inr (List.mem_append_right _ hother)) heq
  have hbest' := (bestMatch_mapNames x p hapart).trans hbest
  have hweight' := (weightOfNode_mapNames (extend m) x).trans hweight
  exact ⟨_, _, best, sizeOfNode x, _, finish_renameNode _ hx, finish_renameProgram _ hp,
    ⟨hbest, hbest'⟩, ⟨hweight, hweight'⟩, usefulness_eq hbest hweight, usefulness_eq hbest' hweight'⟩

/-- Assigns each number in turn. -/
def lastNumber (target number : String) : Node :=
  .stmt (.foreach 1 "i" "int" (.variable "numbers" "int[]")
    [.assign 2 (.variable target "int") (.variable number "int")])

theorem usefulness_renamed_pursuing :
    let m := exchange "n" "m"
    let x := lastNumber "n" "m"
    let p := pursuing "n" "m"
    NodeSearchable x ∧ ProgramSearchable p ∧
      Set.InjOn (extend m) {name | name ∈ namesInNode x ∨ name ∈ namesInProgram p} ∧
      ∃ y q best weight score, finish (renameNode (extend m) x) = (y, none) ∧
        finish (renameProgram (extend m) p) = (q, none) ∧
        (bestMatch x p = .ok best ∧ bestMatch y q = .ok best) ∧
        (weightOfNode x = .ok weight ∧ weightOfNode y = .ok weight) ∧
        (usefulness x p = .ok score ∧ usefulness y q = .ok score) := by
  intro m x p
  have hfragment : NodeSearchable x := ⟨trivial, ⟨trivial, trivial⟩, trivial⟩
  have hprogram : ProgramSearchable p := by
    refine ⟨⟨⟨trivial, ⟨trivial, ⟨trivial, trivial⟩, trivial⟩, trivial⟩, trivial⟩, ?_⟩
    rintro e ⟨⟩
    exact trivial
  have hnames : ∀ name ∈ namesInNode x ++ namesInProgram p,
      ∀ other ∈ namesInNode x ++ namesInProgram p,
        extend m name = extend m other → name = other := by decide
  have h : Set.InjOn (extend m) {name | name ∈ namesInNode x ∨ name ∈ namesInProgram p} :=
    fun name hname other hother =>
      hnames name (List.mem_append.mpr hname) other (List.mem_append.mpr hother)
  exact ⟨hfragment, hprogram, h, usefulness_renamed m x p rfl rfl hfragment hprogram h⟩

end FragmentSynthesis.Proofs.RenamedMatches
