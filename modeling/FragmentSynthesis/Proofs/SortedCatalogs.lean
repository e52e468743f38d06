import FragmentSynthesis.CatalogDocument
import FragmentSynthesis.Proofs.CatalogSteps
import Mathlib.Data.String.Basic

namespace FragmentSynthesis.Proofs.SortedCatalogs

open FragmentSynthesis.CatalogDocument
open FragmentSynthesis.Catalogs
open FragmentSynthesis.Components
open FragmentSynthesis.Faults
open FragmentSynthesis.Proofs.CatalogSteps
open FragmentSynthesis.TokenTables
open FragmentSynthesis.TypeName
open FragmentSynthesis.TypeRefs

/-- The components that are given, in the order of their keys, those with one key in the order in
which they are given. -/
structure IsStableSort (given sorted : List Component) : Prop where
  perm : sorted.Perm given
  ordered : sorted.Pairwise fun c d => c.sortKey ≤ d.sortKey
  ties : ∀ key : String,
    (sorted.filter fun c => c.sortKey = key) = given.filter fun c => c.sortKey = key

theorem sortKey_head_le {c d : Component} {xs ys : List Component}
    (hys : (d :: ys).Pairwise fun c d => c.sortKey ≤ d.sortKey)
    (h : ∀ key : String,
      ((c :: xs).filter fun c => c.sortKey = key) = (d :: ys).filter fun c => c.sortKey = key) :
    d.sortKey ≤ c.sortKey := by
  have hmem : c ∈ (d :: ys).filter fun e => e.sortKey = c.sortKey := by
    rw [← h]
    simp
  rcases List.mem_cons.mp (List.mem_filter.mp hmem).1 with rfl | hc
  · exact le_refl _
  · exact (List.pairwise_cons.mp hys).1 c hc

theorem eq_of_ties {xs ys : List Component}
    (hxs : xs.Pairwise fun c d => c.sortKey ≤ d.sortKey)
    (hys : ys.Pairwise fun c d => c.sortKey ≤ d.sortKey)
    (h : ∀ key : String,
      (xs.filter fun c => c.sortKey = key) = ys.filter fun c => c.sortKey = key) :
    xs = ys := by
  induction xs generalizing ys with
  | nil =>
      cases ys with
      | nil => rfl
      | cons d ys => simpa using h d.sortKey
  | cons c xs ih =>
      cases ys with
      | nil => simpa using h c.sortKey
      | cons d ys =>
          have hkey : c.sortKey = d.sortKey :=
            le_antisymm (sortKey_head_le hxs fun key => (h key).symm) (sortKey_head_le hys h)
          have hfirst : c = d := by
            have := h c.sortKey
            rw [List.filter_cons_of_pos (by simp), List.filter_cons_of_pos (by simp [hkey])] at this
            exact (List.cons.inj this).1
          subst hfirst
          rw [ih (List.pairwise_cons.mp hxs).2 (List.pairwise_cons.mp hys).2]
          intro key
          have hkeys := h key
          rw [List.filter_cons, List.filter_cons] at hkeys
          split at hkeys
          · exact (List.cons.inj hkeys).2
          · exact hkeys

theorem IsStableSort.eq {given xs ys : List Component} (hxs : IsStableSort given xs)
    (hys : IsStableSort given ys) : xs = ys :=
  eq_of_ties hxs.ordered hys.ordered fun key => (hxs.ties key).trans (hys.ties key).symm

theorem perm_insertSorted (c : Component) (cs : List Component) :
    (insertSorted c cs).Perm (cs ++ [c]) := by
  induction cs with
  | nil => rfl
  | cons d rest ih =>
      simp only [insertSorted]
      split
      · exact (List.perm_append_singleton c (d :: rest)).symm
      · exact ih.cons d

theorem ordered_insertSorted {c : Component} {cs : List Component}
    (h : cs.Pairwise fun c d => c.sortKey ≤ d.sortKey) :
    (insertSorted c cs).Pairwise fun c d => c.sortKey ≤ d.sortKey := by
  induction cs with
  | nil => exact List.pairwise_singleton _ _
  | cons d rest ih =>
      obtain ⟨hfirst, hrest⟩ := List.pairwise_cons.mp h
      simp only [insertSorted]
      split
      · rename_i hlt
        refine List.pairwise_cons.mpr ⟨?_, h⟩
        intro e he
        rcases List.mem_cons.mp he with rfl | he
        · exact le_of_lt hlt
        · exact (le_of_lt hlt).trans (hfirst e he)
      · rename_i hle
        refine List.pairwise_cons.mpr ⟨?_, ih hrest⟩
        intro e he
        rcases List.mem_append.mp ((perm_insertSorted c rest).mem_iff.mp he) with he | he
        · exact hfirst e he
        · rw [List.mem_singleton.mp he]
          exact not_lt.mp hle

theorem ties_insertSorted {c : Component} {cs : List Component}
    (h : cs.Pairwise fun c d => c.sortKey ≤ d.sortKey) (key : String) :
    ((insertSorted c cs).filter fun c => c.sortKey = key) =
      (cs ++ [c]).filter fun c => c.sortKey = key := by
  induction cs with
  | nil => rfl
  | cons d rest ih =>
      obtain ⟨hfirst, hrest⟩ := List.pairwise_cons.mp h
      simp only [insertSorted]
      split
      · rename_i hlt
        by_cases hc : c.sortKey = key
        · -- everything behind the new component has a larger key
          have hnone : ((d :: rest).filter fun c => c.sortKey = key) = [] := by
            rw [List.filter_eq_nil_iff]
            intro e he
            rw [decide_eq_true_iff, ← hc]
            rcases List.mem_cons.mp he with rfl | he
            · exact ne_of_gt hlt
            · exact ne_of_gt (lt_of_lt_of_le hlt (hfirst e he))
          rw [List.filter_append, hnone, List.filter_cons_of_pos (by simpa using hc), hnone]
          simp [hc]
        · rw [List.filter_append, List.filter_cons_of_neg (by simpa using hc)]
          simp [hc]
      · rw [List.cons_append, List.filter_cons, List.filter_cons, ih hrest]

theorem isStableSort_nil : IsStableSort [] [] where
  perm := List.Perm.nil
  ordered := List.Pairwise.nil
  ties := fun _ => rfl

/-- Sorting a further component in keeps the order stable. -/
theorem IsStableSort.insertSorted {given sorted : List Component} (h : IsStableSort given sorted)
    (c : Component) : IsStableSort (given ++ [c]) (insertSorted c sorted) where
  perm := (perm_insertSorted c sorted).trans (h.perm.append_right [c])
  ordered := ordered_insertSorted h.ordered
  ties := by
    intro key
    rw [ties_insertSorted h.ordered, List.filter_append, List.filter_append, h.ties]

theorem isStableSort_sortComponents (given : List Component) :
    IsStableSort given (sortComponents given) := by
  have htrans (a b c : Component) (hab : decide (a.sortKey ≤ b.sortKey) = true)
      (hbc : decide (b.sortKey ≤ c.sortKey) = true) : decide (a.sortKey ≤ c.sortKey) = true := by
    rw [decide_eq_true_iff] at *
    exact hab.trans hbc
  have htotal (a b : Component) :
      (decide (a.sortKey ≤ b.sortKey) || decide (b.sortKey ≤ a.sortKey)) = true := by
    rw [Bool.or_eq_true, decide_eq_true_iff, decide_eq_true_iff]
    exact le_total a.sortKey b.sortKey
  have hperm : (sortComponents given).Perm given := List.mergeSort_perm given _
  refine ⟨hperm, ?_, ?_⟩
  · exact (List.pairwise_mergeSort htrans htotal given).imp fun h => by simpa using h
  · intro key
    -- Those of one key are a sorted part of what is given, so they stay in their order.
    have hpart : ((given.filter fun c => c.sortKey = key).Pairwise
        fun c d => decide (c.sortKey ≤ d.sortKey) = true) := by
      rw [List.pairwise_iff_forall_sublist]
      intro c d hcd
      have hc := List.of_mem_filter (hcd.subset List.mem_cons_self)
      have hd := List.of_mem_filter (hcd.subset (List.mem_cons_of_mem c List.mem_cons_self))
      simp_all
    have hsub := List.sublist_mergeSort htrans htotal hpart List.filter_sublist
    have hfilter := hsub.filter fun c => decide (c.sortKey = key)
    simp only [List.filter_filter, Bool.and_self] at hfilter
    exact (hfilter.eq_of_length ((hperm.filter _).length_eq.symm)).symm

/-- A component is taken in if it is valid and differs from those taken in before. -/
def IsNew (taken : List Component) (c : Component) : Prop :=
  c.valid = true ∧ ∀ d ∈ taken, d.identity ≠ c.identity

instance (taken : List Component) (c : Component) : Decidable (IsNew taken c) :=
  inferInstanceAs (Decidable (_ ∧ _))

/-- Takes a component in behind the others if it is new. -/
def takeUp (taken : List Component) (c : Component) : List Component :=
  if IsNew taken c then taken ++ [c] else taken

/-- The components that are taken in of those offered, in this order. -/
def accepted (offered : List Component) : List Component :=
  offered.foldl takeUp []

/-- What is taken in besides. -/
def further (taken : List Component) : List Component → List Component
  | [] => []
  | c :: rest =>
      if IsNew taken c then c :: further (taken ++ [c]) rest else further taken rest

theorem foldl_takeUp (taken cs : List Component) :
    cs.foldl takeUp taken = taken ++ further taken cs := by
  induction cs generalizing taken with
  | nil => simp [further]
  | cons c rest ih =>
      rw [List.foldl_cons, ih, takeUp, further]
      split
      · rw [List.append_assoc, List.singleton_append]
      · rfl

theorem isNew_append {taken : List Component} {c d : Component} (h : c.identity ≠ d.identity) :
    IsNew (taken ++ [c]) d ↔ IsNew taken d := by
  constructor
  · rintro ⟨hvalid, hnew⟩
    exact ⟨hvalid, fun e he => hnew e (List.mem_append_left [c] he)⟩
  · rintro ⟨hvalid, hnew⟩
    refine ⟨hvalid, ?_⟩
    intro e he
    rcases List.mem_append.mp he with he | he
    · exact hnew e he
    · rw [List.mem_singleton.mp he]
      exact h

/-- Among components that differ from each other, it does not matter what was taken in of them. -/
theorem further_eq_filter {taken cs : List Component}
    (h : cs.Pairwise fun c d => c.identity ≠ d.identity) :
    further taken cs = cs.filter fun c => IsNew taken c := by
  induction cs generalizing taken with
  | nil => rfl
  | cons c rest ih =>
      obtain ⟨hfirst, hrest⟩ := List.pairwise_cons.mp h
      have hsame : (rest.filter fun d => IsNew (taken ++ [c]) d) =
          rest.filter fun d => IsNew taken d := by
        apply List.filter_congr
        intro d hd
        exact decide_eq_decide.mpr (isNew_append (hfirst d hd))
      rw [further, ih hrest, ih hrest, hsame, List.filter_cons]
      simp only [decide_eq_true_eq]

/-- What a catalog is asked to add: the component of a record, or the operations on an array
type. -/
inductive Call
  | record (r : Record)
  | arrayType (type : String)

def step (catalog : Catalog) : Call → Catalog
  | .record r => (catalog.addRecord r).2
  | .arrayType type => (catalog.addArrayType type).2

/-- The catalog after some calls, one after the other. -/
def run (catalog : Catalog) (calls : List Call) : Catalog :=
  calls.foldl step catalog

theorem run_append (catalog : Catalog) (calls more : List Call) :
    run catalog (calls ++ more) = run (run catalog calls) more :=
  List.foldl_append

/-- The component that a catalog makes of a record. -/
def descriptor (catalog : Catalog) (r : Record) : Component :=
  ((unregistered r (parameterFor catalog r)).register catalog.table).1

/-- Components with tokens of a table, given one after the other. -/
def registerEach (table : TokenTable) : List Component → List Component
  | [] => []
  | c :: rest => (c.register table).1 :: registerEach (c.register table).2 rest

/-- The operations on an array type, with tokens of the table of a catalog. -/
def operations (catalog : Catalog) (type : String) : List Component :=
  registerEach catalog.table (arrayOperations type)

/-- The components that calls offer to a catalog, in turn. A name of no array type offers none. -/
def offered (catalog : Catalog) : List Call → List Component
  | [] => []
  | .record r :: rest => descriptor catalog r :: offered (step catalog (.record r)) rest
  | .arrayType type :: rest =>
      (if isArray type then operations catalog type else [])
        ++ offered (step catalog (.arrayType type)) rest

/-- The components that calls make of records. -/
def described (catalog : Catalog) : List Call → List Component
  | [] => []
  | .record r :: rest => descriptor catalog r :: described (step catalog (.record r)) rest
  | .arrayType type :: rest => described (step catalog (.arrayType type)) rest

/-- The type that a catalog gives for type parameters has a name. -/
def HasNamedParameter (catalog : Catalog) : Prop :=
  catalog.parameterType.all TypeRef.isNamed = true

/-- A catalog of components whose types have names, which holds what was taken in. -/
structure Holding (taken : List Component) (catalog : Catalog) : Prop where
  parameter : HasNamedParameter catalog
  named : ∀ c ∈ taken, c.hasNames = true
  stable : IsStableSort taken catalog.components

theorem isNamed_convert {i : Instantiation} (h : i.parameter.all TypeRef.isNamed = true)
    (type : String) : (i.convert type).isNamed = true := by
  unfold Instantiation.convert
  split
  · cases hparameter : i.parameter with
    | none => rfl
    | some parameter =>
        rw [hparameter] at h
        exact h
  · rfl

theorem hasNames_unregistered (r : Record) {parameter : Option TypeRef}
    (h : parameter.all TypeRef.isNamed = true) : (unregistered r parameter).hasNames = true := by
  have hconvert : (r.argTypes.map (Instantiation.convert ⟨r.typeParams, parameter⟩)).all
      TypeRef.isNamed = true := by
    rw [List.all_map, List.all_eq_true]
    exact fun type _ => isNamed_convert h type
  unfold unregistered Component.hasNames
  cases r.kind with
  | constructor => exact hconvert
  | field => rfl
  | method =>
      simp only [methodComponent]
      split
      · rfl
      · exact hconvert
  | arrayGet | arraySet | arrayLength => simp [arrayComponent, TypeRef.isNamed]

theorem isNamed_parameterFor {catalog : Catalog} (h : HasNamedParameter catalog) (r : Record) :
    (parameterFor catalog r).all TypeRef.isNamed = true := by
  unfold parameterFor
  split
  · rfl
  · exact h

theorem hasNames_descriptor {catalog : Catalog} (h : HasNamedParameter catalog) (r : Record) :
    (descriptor catalog r).hasNames = true :=
  hasNames_unregistered r (isNamed_parameterFor h r)

theorem not_refuses {catalog : Catalog} (h : HasNamedParameter catalog) (r : Record) :
    refuses r (parameterFor catalog r) = false := by
  rw [refuses, isNamed_parameterFor h r]
  simp

section

variable {taken : List Component} {catalog : Catalog} {c : Component}

theorem Holding.withTable (h : Holding taken catalog) (table : TokenTable) :
    Holding taken (withTable catalog table) :=
  ⟨h.parameter, h.named, h.stable⟩

theorem Holding.holds_iff (h : Holding taken catalog) (hvalid : c.valid = true) :
    catalog.holds c = true ↔ ¬IsNew taken c := by
  rw [Catalog.holds, List.any_eq_true]
  simp only [IsNew, hvalid, true_and, not_forall, not_not, beq_iff_eq, exists_prop,
    h.stable.perm.mem_iff]

theorem Holding.isSortable (h : Holding taken catalog) : isSortable catalog.components = true := by
  rw [Catalogs.isSortable, Bool.or_eq_true]
  right
  rw [List.all_eq_true]
  intro d hd
  exact h.named d (h.stable.perm.mem_iff.mp hd)

theorem Holding.place_eq (h : Holding taken catalog) (hc : c.hasNames = true) :
    place c catalog.components = insertSorted c catalog.components := by
  have hsortable : Catalogs.isSortable (c :: catalog.components) = true := by
    rw [Catalogs.isSortable, Bool.or_eq_true]
    right
    rw [List.all_cons, hc, Bool.true_and, List.all_eq_true]
    intro d hd
    exact h.named d (h.stable.perm.mem_iff.mp hd)
  rw [place, if_pos hsortable]

theorem Holding.accept (h : Holding taken catalog) (hvalid : c.valid = true)
    (hc : c.hasNames = true) :
    (catalog.accept c).1 = (if IsNew taken c then some c else none) ∧
      Holding (takeUp taken c) (catalog.accept c).2 := by
  by_cases hnew : IsNew taken c
  · have hholds : catalog.holds c = false := by
      rw [Bool.eq_false_iff]
      exact fun h' => (h.holds_iff hvalid).mp h' hnew
    rw [accept_of_not_holds hholds, takeUp, if_pos hnew, if_pos hnew, h.place_eq hc]
    refine ⟨rfl, h.parameter, ?_, h.stable.insertSorted c⟩
    intro d hd
    rcases List.mem_append.mp hd with hd | hd
    · exact h.named d hd
    · rw [List.mem_singleton.mp hd]
      exact hc
  · rw [accept_of_holds ((h.holds_iff hvalid).mpr hnew), takeUp, if_neg hnew, if_neg hnew]
    exact ⟨rfl, h⟩

/-- What a catalog says of a component. -/
def verdictOn (taken : List Component) (c : Component) : Verdict :=
  if IsNew taken c then .added c else if c.valid then .repeated c else .skipped c

theorem skipped_accept (catalog : Catalog) (c : Component) :
    (catalog.accept c).2.skipped = catalog.skipped := by
  cases h : catalog.holds c with
  | true => rw [accept_of_holds h]
  | false => rw [accept_of_not_holds h]

theorem Holding.settle (h : Holding taken catalog) (hc : c.hasNames = true) :
    (settle catalog c).1 = verdictOn taken c ∧ Holding (takeUp taken c) (settle catalog c).2 ∧
      (settle catalog c).2.skipped = catalog.skipped + if c.valid then 0 else 1 := by
  cases hvalid : c.valid with
  | true =>
      obtain ⟨hresult, hafter⟩ := h.accept hvalid hc
      have hskipped := skipped_accept catalog c
      have hsortable := hafter.isSortable
      simp only [CatalogSteps.settle, hvalid, verdictOn, if_true]
      generalize catalog.accept c = result at hresult hafter hskipped hsortable
      obtain ⟨taken?, after⟩ := result
      dsimp only at hresult hafter hskipped hsortable
      subst hresult
      by_cases hnew : IsNew taken c
      · simp only [if_pos hnew, hsortable, if_true]
        exact ⟨trivial, hafter, hskipped⟩
      · simp only [if_neg hnew]
        exact ⟨trivial, hafter, hskipped⟩
  | false =>
      have hnew : ¬IsNew taken c := fun h' => Bool.false_ne_true (hvalid.symm.trans h'.1)
      simp only [CatalogSteps.settle, hvalid, verdictOn, takeUp, if_neg hnew, hc, if_true]
      exact ⟨rfl, ⟨h.parameter, h.named, h.stable⟩, rfl⟩

theorem Holding.addRecord (h : Holding taken catalog) (r : Record) :
    (catalog.addRecord r).1 = verdictOn taken (descriptor catalog r) ∧
      Holding (takeUp taken (descriptor catalog r)) (catalog.addRecord r).2 ∧
      (catalog.addRecord r).2.skipped =
        catalog.skipped + if (descriptor catalog r).valid then 0 else 1 := by
  rw [addRecord_of_not_refuses (not_refuses h.parameter r)]
  exact (h.withTable _).settle (hasNames_descriptor h.parameter r)

theorem Holding.addArrayOperation (h : Holding taken catalog) (hvalid : c.valid = true)
    (hc : c.hasNames = true) :
    (catalog.addArrayOperation c).1 =
        (if IsNew taken (c.register catalog.table).1 then some (c.register catalog.table).1
          else none) ∧
      Holding (takeUp taken (c.register catalog.table).1) (catalog.addArrayOperation c).2 ∧
      (catalog.addArrayOperation c).2.table = (c.register catalog.table).2 ∧
      (catalog.addArrayOperation c).2.skipped = catalog.skipped := by
  rw [addArrayOperation_eq]
  obtain ⟨hresult, hafter⟩ :=
    (h.withTable (catalog.table.add c.key)).accept (c := (c.register catalog.table).1) hvalid hc
  exact ⟨hresult, hafter, table_accept _ _, skipped_accept _ _⟩

theorem Holding.addArrayOperations {cs : List Component} (h : Holding taken catalog)
    (hcs : ∀ c ∈ cs, c.valid = true ∧ c.hasNames = true) :
    (catalog.addArrayOperations cs).1 = .ok (further taken (registerEach catalog.table cs)) ∧
      Holding (taken ++ further taken (registerEach catalog.table cs))
        (catalog.addArrayOperations cs).2 ∧
      (catalog.addArrayOperations cs).2.skipped = catalog.skipped := by
  induction cs generalizing taken catalog with
  | nil => simpa [Catalog.addArrayOperations, further, registerEach] using h
  | cons c rest ih =>
      obtain ⟨hvalid, hc⟩ := hcs c List.mem_cons_self
      obtain ⟨hresult, hafter, htable, hskipped⟩ := h.addArrayOperation hvalid hc
      have hrest := ih hafter fun d hd => hcs d (List.mem_cons_of_mem c hd)
      have hsortable := hafter.isSortable
      simp only [Catalog.addArrayOperations, registerEach, further, hsortable, Bool.or_true,
        if_true]
      rw [htable, hskipped] at hrest
      obtain ⟨hothers, hfinal, hskips⟩ := hrest
      rw [hothers, hresult]
      by_cases hnew : IsNew taken (c.register catalog.table).1
      · simp only [takeUp, if_pos hnew, List.append_assoc, List.singleton_append] at hfinal ⊢
        exact ⟨rfl, hfinal, hskips⟩
      · simp only [takeUp, if_neg hnew] at hfinal ⊢
        exact ⟨rfl, hfinal, hskips⟩

theorem ok_of_mem_arrayOperations (type : String) (h : c ∈ arrayOperations type) :
    c.valid = true ∧ c.hasNames = true := by
  simp only [arrayOperations, List.mem_cons, List.not_mem_nil, or_false] at h
  rcases h with rfl | rfl | rfl <;> exact ⟨rfl, rfl⟩

theorem pairwise_operations (catalog : Catalog) (type : String) :
    (operations catalog type).Pairwise fun c d => c.identity ≠ d.identity := by
  simp [operations, arrayOperations, registerEach, Component.register, arrayComponent]

theorem Holding.addArrayType (h : Holding taken catalog) {type : String}
    (htype : isArray type = true) :
    (catalog.addArrayType type).1 = .ok ((operations catalog type).filter fun c => IsNew taken c) ∧
      Holding ((operations catalog type).foldl takeUp taken) (catalog.addArrayType type).2 ∧
      (catalog.addArrayType type).2.skipped = catalog.skipped := by
  have hadd := h.addArrayOperations fun c hc => ok_of_mem_arrayOperations type hc
  rw [Catalog.addArrayType, if_pos htype, foldl_takeUp,
    ← further_eq_filter (pairwise_operations catalog type)]
  exact hadd

end

/-- What a catalog is after some calls, and what it answers to a further one. The calls offer
components to it of which it takes the first of each identity in, if it is valid. -/
structure SortedSet (start : Catalog) (calls : List Call) : Prop where
  components : IsStableSort (accepted (offered start calls)) (run start calls).components
  components_eq :
    (run start calls).components = sortComponents (accepted (offered start calls))
  skipped : (run start calls).skipped = (described start calls).countP fun c => !c.valid
  addRecord : ∀ r, ((run start calls).addRecord r).1 =
    verdictOn (accepted (offered start calls)) (descriptor (run start calls) r)
  addArrayType : ∀ type, isArray type = true →
    ((run start calls).addArrayType type).1 =
      .ok ((operations (run start calls) type).filter fun c =>
        IsNew (accepted (offered start calls)) c)
  notArrayType : ∀ type, isArray type = false →
    (run start calls).addArrayType type = (.error (.notArrayType type), run start calls)

theorem addArrayType_of_not {catalog : Catalog} {type : String} (h : isArray type = false) :
    catalog.addArrayType type = (.error (.notArrayType type), catalog) := by
  rw [Catalog.addArrayType, if_neg]
  exact fun h' => Bool.false_ne_true (h.symm.trans h')

theorem Holding.run {taken : List Component} {catalog : Catalog} (h : Holding taken catalog)
    (calls : List Call) :
    Holding ((offered catalog calls).foldl takeUp taken) (run catalog calls) ∧
      (SortedCatalogs.run catalog calls).skipped =
        catalog.skipped + (described catalog calls).countP fun c => !c.valid := by
  induction calls generalizing taken catalog with
  | nil => exact ⟨h, rfl⟩
  | cons call rest ih =>
      cases call with
      | record r =>
          obtain ⟨-, hafter, hskipped⟩ := h.addRecord r
          obtain ⟨hfinal, hskips⟩ := ih hafter
          refine ⟨hfinal, hskips.trans ?_⟩
          rw [hskipped, described, List.countP_cons]
          cases (descriptor catalog r).valid <;> simp [step, Nat.add_comm, Nat.add_assoc]
      | arrayType type =>
          cases htype : isArray type with
          | true =>
              obtain ⟨-, hafter, hskipped⟩ := h.addArrayType htype
              obtain ⟨hfinal, hskips⟩ := ih hafter
              rw [offered, if_pos htype, List.foldl_append]
              refine ⟨hfinal, hskips.trans ?_⟩
              rw [hskipped]
              rfl
          | false =>
              have hstep : step catalog (.arrayType type) = catalog := by
                rw [step, addArrayType_of_not htype]
              obtain ⟨hfinal, hskips⟩ := ih h
              rw [offered, htype, described, hstep, SortedCatalogs.run, List.foldl_cons, hstep]
              exact ⟨hfinal, hskips⟩

theorem holding_empty (parameter : Option String) (table : TokenTable) :
    Holding [] (Catalog.empty (parameter.map .named) table) where
  parameter := by cases parameter <;> rfl
  named := fun _ h => (List.not_mem_nil h).elim
  stable := isStableSort_nil

theorem sortedSet (parameter : Option String) (table : TokenTable) (calls : List Call) :
    SortedSet (Catalog.empty (parameter.map .named) table) calls := by
  obtain ⟨hholding, hskipped⟩ := (holding_empty parameter table).run calls
  refine ⟨hholding.stable, hholding.stable.eq (isStableSort_sortComponents _), ?_, ?_, ?_, ?_⟩
  · rw [hskipped]
    exact Nat.zero_add _
  · exact fun r => (hholding.addRecord r).1
  · exact fun type htype => (hholding.addArrayType htype).1
  · exact fun type htype => addArrayType_of_not htype

theorem fault?_verdictOn (taken : List Component) (c : Component) :
    (verdictOn taken c).fault? = none := by
  unfold verdictOn
  split
  · rfl
  · split <;> rfl

theorem addRecords_cons {catalog : Catalog} {r : Record} (rest : List Record)
    (h : (catalog.addRecord r).1.fault? = none) :
    catalog.addRecords (r :: rest) =
      ((catalog.addRecord r).1 :: ((catalog.addRecord r).2.addRecords rest).1,
        ((catalog.addRecord r).2.addRecords rest).2) := by
  rw [Catalog.addRecords]
  generalize catalog.addRecord r = result at h
  obtain ⟨verdict, after⟩ := result
  cases verdict with
  | refused fault => cases h
  | added c | «repeated» c | skipped c => rfl

theorem Holding.addRecords {taken : List Component} {catalog : Catalog}
    (h : Holding taken catalog) (records : List Record) :
    (catalog.addRecords records).1.findSome? Verdict.fault? = none ∧
      (catalog.addRecords records).2 = SortedCatalogs.run catalog (records.map .record) := by
  induction records generalizing taken catalog with
  | nil => exact ⟨rfl, rfl⟩
  | cons r rest ih =>
      obtain ⟨hverdict, hafter, -⟩ := h.addRecord r
      have hfault : (catalog.addRecord r).1.fault? = none := by
        rw [hverdict]
        exact fault?_verdictOn _ _
      obtain ⟨hfaults, hfinal⟩ := ih hafter
      rw [addRecords_cons rest hfault, List.findSome?_cons, hfault]
      exact ⟨hfaults, hfinal⟩

theorem Holding.addArrayTypes {taken : List Component} {catalog : Catalog}
    (h : Holding taken catalog) (types : List String) :
    addArrayTypes catalog (types.map .ok) =
      (SortedCatalogs.run catalog ((types.takeWhile isArray).map .arrayType),
        (types.find? fun type => !isArray type).map .notArrayType) := by
  induction types generalizing taken catalog with
  | nil => rfl
  | cons type rest ih =>
      rw [List.map_cons, CatalogDocument.addArrayTypes, List.takeWhile_cons, List.find?_cons]
      cases htype : isArray type with
      | true =>
          obtain ⟨hresult, hafter, -⟩ := h.addArrayType htype
          have hrest := ih hafter
          generalize hadd : catalog.addArrayType type = result at hresult hrest
          obtain ⟨added, after⟩ := result
          dsimp only at hresult hrest
          subst hresult
          simp only [hrest, Bool.not_true, if_true, List.map_cons, SortedCatalogs.run,
            List.foldl_cons, step, hadd]
      | false =>
          rw [addArrayType_of_not htype]
          rfl

/-- How a catalog is made of records and array types: by the calls for these, up to the first name
of no array type, which is the one fault that there can be. -/
structure Built (start : Catalog) (records : List Record) (types : List String) : Prop where
  fault : (build start records (types.map .ok)).fault =
    (types.find? fun type => !isArray type).map .notArrayType
  catalog : (build start records (types.map .ok)).catalog =
    run start (records.map .record ++ (types.takeWhile isArray).map .arrayType)

theorem built (parameter : Option String) (table : TokenTable) (records : List Record)
    (types : List String) : Built (Catalog.empty (parameter.map .named) table) records types := by
  have hempty := holding_empty parameter table
  obtain ⟨hfaults, hcatalog⟩ := hempty.addRecords records
  have htypes := ((hempty.run (records.map .record)).1).addArrayTypes types
  rw [← hcatalog] at htypes
  constructor
  · simp only [build, hfaults, htypes]
  · simp only [build, hfaults, htypes]
    rw [run_append, hcatalog]

/-- A catalog is the stable order of what was offered first of each identity, from its making on
and through all further calls. -/
theorem catalog_sortedSet (parameter : Option String) (table : TokenTable) :
    (∀ calls, SortedSet (Catalog.empty (parameter.map .named) table) calls) ∧
      ∀ records types, Built (Catalog.empty (parameter.map .named) table) records types :=
  ⟨sortedSet parameter table, built parameter table⟩

end FragmentSynthesis.Proofs.SortedCatalogs
