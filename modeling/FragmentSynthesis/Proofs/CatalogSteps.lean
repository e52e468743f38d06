import FragmentSynthesis.Catalogs

namespace FragmentSynthesis.Proofs.CatalogSteps

open FragmentSynthesis.Catalogs
open FragmentSynthesis.Components
open FragmentSynthesis.Faults
open FragmentSynthesis.TokenTables
open FragmentSynthesis.TypeRefs

/-- The catalog with another table. -/
def withTable (catalog : Catalog) (table : TokenTable) : Catalog :=
  { catalog with table := table }

/-- What a catalog gives a record for its type parameters. -/
def parameterFor (catalog : Catalog) (r : Record) : Option TypeRef :=
  if r.typeParams.isEmpty then none else catalog.parameterType

/-- Whether the component of a record cannot be made. -/
def refuses (r : Record) (parameter : Option TypeRef) : Bool :=
  r.kind = .constructor && !parameter.all TypeRef.isNamed

theorem ofRecord_of_refuses {r : Record} {parameter : Option TypeRef}
    (h : refuses r parameter = true) (table : TokenTable) :
    ofRecord r table parameter = .error .wrongShape :=
  if_pos h

theorem ofRecord_of_not_refuses {r : Record} {parameter : Option TypeRef}
    (h : refuses r parameter = false) (table : TokenTable) :
    ofRecord r table parameter = .ok ((unregistered r parameter).register table) := by
  unfold ofRecord
  rw [if_neg]
  exact fun h' => Bool.false_ne_true (h.symm.trans h')

theorem accept_of_holds {catalog : Catalog} {c : Component} (h : catalog.holds c = true) :
    catalog.accept c = (none, catalog) :=
  if_pos h

theorem accept_of_not_holds {catalog : Catalog} {c : Component} (h : catalog.holds c = false) :
    catalog.accept c =
      (some c, { catalog with components := place c catalog.components }) := by
  unfold Catalog.accept
  rw [if_neg]
  exact fun h' => Bool.false_ne_true (h.symm.trans h')

theorem table_accept (catalog : Catalog) (c : Component) :
    (catalog.accept c).2.table = catalog.table := by
  cases h : catalog.holds c with
  | true => rw [accept_of_holds h]
  | false => rw [accept_of_not_holds h]

/-- What is done with a component that has its token. -/
def settle (catalog : Catalog) (c : Component) : Verdict × Catalog :=
  if c.valid then
    match catalog.accept c with
    | (some c, catalog) =>
      (if isSortable catalog.components then .added c else .refused .wrongShape, catalog)
    | (none, catalog) => (.repeated c, catalog)
  else
    (if c.hasNames then .skipped c else .refused .wrongShape,
      { catalog with skipped := catalog.skipped + 1 })

theorem table_settle (catalog : Catalog) (c : Component) :
    (settle catalog c).2.table = catalog.table := by
  unfold settle
  split
  · cases h : catalog.holds c with
    | true => rw [accept_of_holds h]
    | false => rw [accept_of_not_holds h]
  · rfl

theorem addRecord_of_refuses {catalog : Catalog} {r : Record}
    (h : refuses r (parameterFor catalog r) = true) :
    catalog.addRecord r = (.refused .wrongShape, catalog) := by
  have hofRecord := ofRecord_of_refuses h catalog.table
  simp only [parameterFor] at hofRecord
  simp only [Catalog.addRecord, hofRecord]

theorem addRecord_of_not_refuses {catalog : Catalog} {r : Record}
    (h : refuses r (parameterFor catalog r) = false) :
    catalog.addRecord r =
      settle
        (withTable catalog
          (catalog.table.add (unregistered r (parameterFor catalog r)).key))
        ((unregistered r (parameterFor catalog r)).register catalog.table).1 := by
  have hofRecord := ofRecord_of_not_refuses h catalog.table
  simp only [parameterFor] at hofRecord
  simp only [Catalog.addRecord, hofRecord]
  rfl

theorem addArrayOperation_eq (catalog : Catalog) (c : Component) :
    catalog.addArrayOperation c =
      (withTable catalog (catalog.table.add c.key)).accept (c.register catalog.table).1 :=
  rfl

end FragmentSynthesis.Proofs.CatalogSteps
