import FragmentSynthesis.Proofs.CatalogSteps
import FragmentSynthesis.Proofs.RenderedOutlines
import Mathlib.Data.Finset.Card

namespace FragmentSynthesis.Proofs.TokenHistories

open FragmentSynthesis.Base36
open FragmentSynthesis.Catalogs
open FragmentSynthesis.Components
open FragmentSynthesis.Faults
open FragmentSynthesis.Proofs.CatalogSteps
open FragmentSynthesis.Proofs.RenderedOutlines
open FragmentSynthesis.Proofs.TokenReading
open FragmentSynthesis.TokenTables
open FragmentSynthesis.TypeName
open FragmentSynthesis.TypeRefs

/-- The digits in base thirty-six, the smallest first. -/
def alphabet : List Char :=
  "0123456789abcdefghijklmnopqrstuvwxyz".toList

/-- The number that digits stand for, the most significant one first. -/
def numberOf (digits : List Char) : Nat :=
  digits.foldl (fun n c => 36 * n + alphabet.idxOf c) 0

/-- A text is the numeral of a number in base thirty-six, without leading zeros. -/
structure IsNumeralOf (n : Nat) (text : String) : Prop where
  nonempty : text.toList ≠ []
  digits : ∀ c ∈ text.toList, c ∈ alphabet
  value : numberOf text.toList = n
  leading : text.toList.head? = some '0' → text.toList = ['0']

theorem digitChar_alphabet {d : Nat} (h : d < 36) :
    digitChar d ∈ alphabet ∧ alphabet.idxOf (digitChar d) = d := by
  revert d
  decide

theorem toList_numeral (n : Nat) : (numeral n).toList = ((digits n).map digitChar).reverse := by
  rw [numeral, String.toList_ofList, List.map_reverse]

theorem numberOf_reverse {ds : List Nat} (h : ∀ d ∈ ds, d < 36) :
    numberOf (ds.map digitChar).reverse = value ds := by
  rw [numberOf, List.foldl_reverse]
  induction ds with
  | nil => rfl
  | cons d ds ih =>
      have hfirst := (digitChar_alphabet (h d List.mem_cons_self)).2
      have hrest := ih fun d' hd' => h d' (List.mem_cons_of_mem d hd')
      rw [List.map_cons, List.foldr_cons, hrest, hfirst, value]
      omega

theorem digits_ne_nil (n : Nat) : digits n ≠ [] := by
  rw [digits]
  split <;> simp

theorem eq_zero_of_getLast? {n : Nat} (h : (digits n).getLast? = some 0) : n = 0 := by
  induction n using Nat.strongRecOn with
  | ind n ih =>
      by_cases hn : n < 36
      · rw [digits_of_lt hn, List.getLast?_singleton, Option.some.injEq] at h
        exact h
      · rw [digits_of_le (by omega), List.getLast?_cons_of_ne_nil (digits_ne_nil _)] at h
        have := ih (n / 36) (by omega) h
        omega

theorem isNumeralOf_numeral (n : Nat) : IsNumeralOf n (numeral n) where
  nonempty := by
    rw [toList_numeral]
    simpa using digits_ne_nil n
  digits := by
    intro c hc
    rw [toList_numeral, List.mem_reverse, List.mem_map] at hc
    obtain ⟨d, hd, rfl⟩ := hc
    exact (digitChar_alphabet (lt_of_mem_digits hd)).1
  value := by
    rw [toList_numeral, numberOf_reverse fun d hd => lt_of_mem_digits hd, value_digits]
  leading := by
    intro h
    rw [toList_numeral, List.head?_reverse, List.getLast?_map, Option.map_eq_some_iff] at h
    obtain ⟨d, hlast, hzero⟩ := h
    have hd : d < 36 := lt_of_mem_digits (List.mem_of_getLast? hlast)
    have hd0 : d = 0 := by
      rw [← (digitChar_alphabet hd).2, hzero]
      decide
    subst hd0
    rw [eq_zero_of_getLast? hlast, toList_numeral, digits_of_lt (by omega)]
    rfl

/-- A table has the keys that were asked for, each at the place that the number of distinct keys
before it gives. -/
structure Counted (table : TokenTable) (asked : List String) : Prop where
  mem_iff : ∀ key, key ∈ table.keys ↔ key ∈ asked
  index_eq : ∀ key ∈ asked,
    table.keys.idxOf key = (asked.takeWhile fun other => other ≠ key).toFinset.card

theorem counted_empty : Counted TokenTable.empty [] where
  mem_iff := fun _ => Iff.rfl
  index_eq := fun _ h => (List.not_mem_nil h).elim

theorem takeWhile_append_of_notMem {key : String} {asked : List String} (h : key ∉ asked)
    (more : List String) :
    (asked ++ more).takeWhile (fun other => decide (other ≠ key)) =
      asked ++ more.takeWhile (fun other => decide (other ≠ key)) := by
  apply List.takeWhile_append_of_pos
  intro other hother
  rw [decide_eq_true_iff]
  rintro rfl
  exact h hother

theorem takeWhile_append_of_mem {key : String} {asked : List String} (h : key ∈ asked)
    (more : List String) :
    (asked ++ more).takeWhile (fun other => decide (other ≠ key)) =
      asked.takeWhile (fun other => decide (other ≠ key)) := by
  induction asked with
  | nil => exact (List.not_mem_nil h).elim
  | cons first rest ih =>
      rw [List.cons_append, List.takeWhile_cons, List.takeWhile_cons]
      by_cases hfirst : first = key
      · simp [hfirst]
      · rw [List.mem_cons] at h
        rw [ih (h.resolve_left (Ne.symm hfirst))]

namespace Counted

variable {table : TokenTable} {asked : List String}

theorem size_eq (h : Counted table asked) : table.size = asked.toFinset.card := by
  rw [TokenTable.size, ← List.toFinset_card_of_nodup table.nodup]
  congr 1
  ext key
  rw [List.mem_toFinset, List.mem_toFinset, h.mem_iff]

theorem add (h : Counted table asked) (key : String) :
    Counted (table.add key) (asked ++ [key]) where
  mem_iff := by
    intro other
    rw [TokenTable.mem_add, h.mem_iff, List.mem_append, List.mem_singleton]
  index_eq := by
    intro other hother
    by_cases hmem : other ∈ asked
    · rw [takeWhile_append_of_mem hmem, ← h.index_eq other hmem]
      have hkeys := (h.mem_iff other).mpr hmem
      simp only [TokenTable.add]
      split
      · rfl
      · exact List.idxOf_append_of_mem hkeys
    · have hkey : other = key := by
        rw [List.mem_append, List.mem_singleton] at hother
        exact hother.resolve_left hmem
      subst hkey
      have hkeys : other ∉ table.keys := fun hk => hmem ((h.mem_iff other).mp hk)
      have hwhile : (asked ++ [other]).takeWhile (fun k => decide (k ≠ other)) = asked := by
        rw [takeWhile_append_of_notMem hmem]
        simp
      rw [hwhile, ← h.size_eq, TokenTable.size]
      simp only [TokenTable.add, if_neg hkeys]
      rw [List.idxOf_append_of_notMem hkeys]
      simp

theorem addAll (h : Counted table asked) (keys : List String) :
    Counted (keys.foldl TokenTable.add table) (asked ++ keys) := by
  induction keys generalizing table asked with
  | nil => simpa using h
  | cons key rest ih =>
      have := ih (h.add key)
      rwa [List.append_assoc, List.singleton_append] at this

theorem isNumeralOf_token (h : Counted table asked) (key : String) :
    IsNumeralOf (asked.takeWhile fun other => other ≠ key).toFinset.card (table.token key) := by
  have hindex : table.keys.idxOf key =
      (asked.takeWhile fun other => other ≠ key).toFinset.card := by
    by_cases hmem : key ∈ asked
    · exact h.index_eq key hmem
    · have hkeys : key ∉ table.keys := fun hk => hmem ((h.mem_iff key).mp hk)
      have hwhile := takeWhile_append_of_notMem hmem []
      rw [List.append_nil, List.takeWhile_nil, List.append_nil] at hwhile
      rw [hwhile, ← h.size_eq, List.idxOf_eq_length hkeys, TokenTable.size]
  rw [← hindex]
  exact isNumeralOf_numeral _

end Counted

theorem mem_addAll {table : TokenTable} {key : String} (h : key ∈ table.keys)
    (keys : List String) : key ∈ (keys.foldl TokenTable.add table).keys := by
  induction keys generalizing table with
  | nil => exact h
  | cons first rest ih => exact ih ((TokenTable.mem_add _ _ _).mpr (.inl h))

theorem token_addAll {table : TokenTable} {key : String} (h : key ∈ table.keys)
    (keys : List String) : (keys.foldl TokenTable.add table).token key = table.token key := by
  induction keys generalizing table with
  | nil => rfl
  | cons first rest ih =>
      have hkey := (TokenTable.mem_add table first key).mpr (.inl h)
      exact (ih hkey).trans (TokenTable.token_add table first key h)

/-- What a table is asked for: the token of a key, a component with any data, the component of a
record or an operation on an array type. The last two may also be asked for by a catalog that
shares the table, whether it then takes the component in or not. -/
inductive Request
  | token (key : String)
  | component (c : Component)
  | record (r : Record) (parameter : Option TypeRef)
  | array (kind : Kind) (type : String)
  | addRecord (catalog : Catalog) (r : Record)
  | addArrayType (catalog : Catalog) (type : String)

/-- The table after a request. -/
def Request.after (table : TokenTable) : Request → TokenTable
  | .token key => table.add key
  | .component c => (c.register table).2
  | .record r parameter =>
      match ofRecord r table parameter with
      | .ok (_, after) => after
      | .error _ => table
  | .array kind type =>
      match arrayOperation kind type with
      | .ok c => (c.register table).2
      | .error _ => table
  | .addRecord catalog r => ((withTable catalog table).addRecord r).2.table
  | .addArrayType catalog type => ((withTable catalog table).addArrayType type).2.table

/-- The key of the component of a record, unless that cannot be made. -/
def recordKeys (r : Record) (parameter : Option TypeRef) : List String :=
  if refuses r parameter then [] else [(unregistered r parameter).key]

/-- The keys of operations that are added to a catalog, up to one that leaves it without an
order. -/
def operationKeys (catalog : Catalog) : List Component → List String
  | [] => []
  | c :: rest =>
      let (added, after) := catalog.addArrayOperation c
      c.key :: if added.isNone || isSortable after.components then operationKeys after rest else []

/-- The keys whose tokens a request asks for, in turn. -/
def Request.asks (table : TokenTable) : Request → List String
  | .token key => [key]
  | .component c => [c.key]
  | .record r parameter => recordKeys r parameter
  | .array kind type =>
      match arrayOperation kind type with
      | .ok c => [c.key]
      | .error _ => []
  | .addRecord catalog r => recordKeys r (parameterFor catalog r)
  | .addArrayType catalog type =>
      if isArray type then operationKeys (withTable catalog table) (arrayOperations type) else []

/-- The component that a catalog made of a record. -/
def made? : Verdict → Option Component
  | .added c | .repeated c | .skipped c => some c
  | .refused _ => none

/-- The components that a request makes of records. -/
def Request.makes (table : TokenTable) : Request → List Component
  | .record r parameter =>
      match ofRecord r table parameter with
      | .ok (c, _) => [c]
      | .error _ => []
  | .addRecord catalog r => (made? ((withTable catalog table).addRecord r).1).toList
  | _ => []

theorem addRecord_asks (catalog : Catalog) (r : Record) :
    (catalog.addRecord r).2.table =
      (recordKeys r (parameterFor catalog r)).foldl TokenTable.add catalog.table := by
  unfold recordKeys
  cases h : refuses r (parameterFor catalog r) with
  | true =>
      rw [addRecord_of_refuses h]
      rfl
  | false =>
      rw [addRecord_of_not_refuses h, table_settle]
      rfl

theorem addArrayOperation_asks (catalog : Catalog) (c : Component) :
    (catalog.addArrayOperation c).2.table = catalog.table.add c.key := by
  rw [addArrayOperation_eq, table_accept]
  rfl

theorem addArrayOperations_asks (catalog : Catalog) (operations : List Component) :
    (catalog.addArrayOperations operations).2.table =
      (operationKeys catalog operations).foldl TokenTable.add catalog.table := by
  induction operations generalizing catalog with
  | nil => rfl
  | cons c rest ih =>
      have hfirst := addArrayOperation_asks catalog c
      simp only [Catalog.addArrayOperations, operationKeys, List.foldl_cons]
      split
      · rw [ih, hfirst]
      · exact hfirst

/-- All that a request does to a table is to add the keys that it asks for. -/
theorem after_eq (table : TokenTable) (request : Request) :
    request.after table = (request.asks table).foldl TokenTable.add table := by
  cases request with
  | token key => rfl
  | component c => rfl
  | record r parameter =>
      simp only [Request.after, Request.asks, recordKeys]
      cases h : refuses r parameter with
      | true =>
          rw [ofRecord_of_refuses h]
          rfl
      | false =>
          rw [ofRecord_of_not_refuses h]
          rfl
  | array kind type =>
      simp only [Request.after, Request.asks]
      split <;> rfl
  | addRecord catalog r => exact addRecord_asks (withTable catalog table) r
  | addArrayType catalog type =>
      simp only [Request.after, Request.asks, Catalog.addArrayType]
      split
      · exact addArrayOperations_asks (withTable catalog table) (arrayOperations type)
      · rfl

theorem made_settle {catalog : Catalog} {c d : Component}
    (h : made? (settle catalog c).1 = some d) : d = c := by
  unfold settle at h
  split at h
  · cases hholds : catalog.holds c with
    | true =>
        rw [accept_of_holds hholds] at h
        exact (Option.some.inj h).symm
    | false =>
        rw [accept_of_not_holds hholds] at h
        dsimp only at h
        split at h
        · exact (Option.some.inj h).symm
        · cases h
  · dsimp only at h
    split at h
    · exact (Option.some.inj h).symm
    · cases h

theorem issued_of_addRecord {catalog : Catalog} {r : Record} {c : Component}
    (h : made? (catalog.addRecord r).1 = some c) : Issued (catalog.addRecord r).2.table c := by
  cases hrefuses : refuses r (parameterFor catalog r) with
  | true =>
      rw [addRecord_of_refuses hrefuses] at h
      cases h
  | false =>
      rw [addRecord_of_not_refuses hrefuses] at h ⊢
      rw [made_settle h, table_settle]
      exact Issued.record (ofRecord_of_not_refuses hrefuses catalog.table)

theorem issued_of_makes {table : TokenTable} {request : Request} {c : Component}
    (h : c ∈ request.makes table) : Issued (request.after table) c := by
  cases request with
  | record r parameter =>
      simp only [Request.makes, Request.after] at h ⊢
      cases hrefuses : refuses r parameter with
      | true =>
          rw [ofRecord_of_refuses hrefuses] at h
          cases h
      | false =>
          have hofRecord := ofRecord_of_not_refuses hrefuses table
          rw [hofRecord] at h ⊢
          rw [List.mem_singleton] at h
          subst h
          exact Issued.record hofRecord
  | addRecord catalog r => exact issued_of_addRecord (Option.mem_toList.mp h)
  | token key => cases h
  | component c => cases h
  | array kind type => cases h
  | addArrayType catalog type => cases h

theorem issued_addAll {table : TokenTable} {c : Component} (h : Issued table c)
    (keys : List String) : Issued (keys.foldl TokenTable.add table) c := by
  induction keys generalizing table with
  | nil => exact h
  | cons key rest ih => exact ih (h.later key)

/-- A request, or a reset of the table. -/
inductive Event
  | request (request : Request)
  | reset

/-- A table with what happened since it was last reset: the keys that were asked for and the
components that were made of records, earliest first. -/
structure Ledger where
  table : TokenTable
  asked : List String
  made : List Component

/-- A new table, which asks for the tokens of some keys first. -/
def Ledger.start (keys : List String) : Ledger :=
  ⟨TokenTable.ofList keys, keys, []⟩

def Ledger.serve (l : Ledger) (request : Request) : Ledger :=
  ⟨request.after l.table, l.asked ++ request.asks l.table, l.made ++ request.makes l.table⟩

def Ledger.serveAll (l : Ledger) (requests : List Request) : Ledger :=
  requests.foldl Ledger.serve l

def Ledger.step (l : Ledger) : Event → Ledger
  | .request request => l.serve request
  | .reset => ⟨TokenTable.empty, [], []⟩

/-- The ledger after some events, one after the other. -/
def Ledger.run (l : Ledger) (events : List Event) : Ledger :=
  events.foldl Ledger.step l

/-- The table counts the keys that were asked for and has given the components their tokens. -/
structure Kept (l : Ledger) : Prop where
  counted : Counted l.table l.asked
  issued : ∀ c ∈ l.made, Issued l.table c

theorem kept_start (keys : List String) : Kept (Ledger.start keys) where
  counted := counted_empty.addAll keys
  issued := fun _ h => (List.not_mem_nil h).elim

theorem Kept.serve {l : Ledger} (h : Kept l) (request : Request) : Kept (l.serve request) where
  counted := by
    simp only [Ledger.serve, after_eq]
    exact h.counted.addAll _
  issued := by
    intro c hc
    rcases List.mem_append.mp hc with hc | hc
    · simp only [Ledger.serve, after_eq]
      exact issued_addAll (h.issued c hc) _
    · exact issued_of_makes hc

theorem Kept.step {l : Ledger} (h : Kept l) (event : Event) : Kept (l.step event) := by
  cases event with
  | request request => exact h.serve request
  | reset => exact ⟨counted_empty, fun _ h => (List.not_mem_nil h).elim⟩

theorem Kept.run {l : Ledger} (h : Kept l) (events : List Event) : Kept (l.run events) := by
  induction events generalizing l with
  | nil => exact h
  | cons event rest ih => exact ih (h.step event)

theorem mem_serveAll {l : Ledger} {key : String} (h : key ∈ l.table.keys)
    (requests : List Request) : key ∈ (l.serveAll requests).table.keys := by
  induction requests generalizing l with
  | nil => exact h
  | cons request rest ih =>
      apply ih
      simp only [Ledger.serve, after_eq]
      exact mem_addAll h _

theorem token_serveAll {l : Ledger} {key : String} (h : key ∈ l.table.keys)
    (requests : List Request) : (l.serveAll requests).table.token key = l.table.token key := by
  induction requests generalizing l with
  | nil => rfl
  | cons request rest ih =>
      have hserve : (l.serve request).table = (request.asks l.table).foldl TokenTable.add l.table :=
        after_eq l.table request
      have hkey : key ∈ (l.serve request).table.keys := by
        rw [hserve]
        exact mem_addAll h _
      rw [← token_addAll h (request.asks l.table), ← hserve]
      exact ih hkey

/-- Two components belong to one type, with one name, and are called alike. -/
structure SameSignature (c d : Component) : Prop where
  kind_eq : c.kind = d.kind
  declaringType_eq : c.declaringType = d.declaringType
  name_eq : c.name = d.name
  arity_eq : c.argTypes.length = d.argTypes.length
  static_eq : c.isStatic = d.isStatic

theorem key_of_sameSignature {c d : Component} (h : SameSignature c d) : c.key = d.key := by
  rw [Component.key, Component.key, h.kind_eq, h.declaringType_eq, h.name_eq, h.arity_eq,
    h.static_eq]

theorem names_of_namedByKind {c : Component} (h : NamedByKind c) (hc : c.kind.isArray = false) :
    ∃ type name : String, c.declaringType = some type ∧ c.name = some name := by
  unfold NamedByKind at h
  cases hkind : c.kind with
  | method | field =>
      rw [hkind] at h
      obtain ⟨type, name, htype, hname, -⟩ := h
      exact ⟨type, name, htype, hname⟩
  | constructor =>
      rw [hkind] at h
      obtain ⟨type, parameter, htype, hname, -⟩ := h
      exact ⟨type, _, htype, hname⟩
  | arrayGet | arraySet | arrayLength =>
      rw [hkind] at hc
      cases hc

theorem sameSignature_of_key {c d : Component} (hc : NamedByKind c) (hd : NamedByKind d)
    (hmember : c.kind.isArray = false) (hmember' : d.kind.isArray = false) (hdash : Undashed c)
    (hdash' : Undashed d) (h : c.key = d.key) : SameSignature c d := by
  obtain ⟨hkind, harity, hstatic⟩ := structuralKey_inj h
  obtain ⟨-, -, htype, hname⟩ := names_of_key hdash hdash' h
  obtain ⟨type, name, hctype, hcname⟩ := names_of_namedByKind hc hmember
  obtain ⟨type', name', hdtype, hdname⟩ := names_of_namedByKind hd hmember'
  rw [hctype, hdtype] at htype
  rw [hcname, hdname] at hname
  obtain rfl : type = type' := htype
  obtain rfl : name = name' := hname
  exact ⟨hkind, hctype.trans hdtype.symm, hcname.trans hdname.symm, harity, hstatic⟩

theorem token_eq_iff {table : TokenTable} {c d : Component} (hc : Issued table c)
    (hd : Issued table d) (hmember : c.kind.isArray = false) (hmember' : d.kind.isArray = false)
    (hdash : Undashed c) (hdash' : Undashed d) : c.token = d.token ↔ SameSignature c d := by
  constructor
  · intro h
    exact sameSignature_of_key (Issued.namedByKind hc) (Issued.namedByKind hd) hmember hmember'
      hdash hdash' (hc.listed.key_eq hd.listed h)
  · intro h
    rw [hc.listed.token_eq, hd.listed.token_eq, key_of_sameSignature h]

/-- What the tokens of a table tell after some run, and go on telling until it is reset. A token
is what the table says when it is asked for a key: the number of distinct keys before. -/
structure StableBijection (l : Ledger) : Prop where
  size_eq : l.table.size = l.asked.toFinset.card
  token_eq : ∀ key,
    IsNumeralOf (l.asked.takeWhile fun other => other ≠ key).toFinset.card (l.table.token key)
  stable : ∀ key later,
    ((l.serve (.token key)).serveAll later).table.token key = l.table.token key
  told_apart : ∀ key other later,
    ((l.serve (.token key)).serveAll later).table.token other = l.table.token key ↔ other = key
  made_token : ∀ c ∈ l.made, c.token = l.table.token c.key
  made_told_apart : ∀ c ∈ l.made, ∀ d ∈ l.made,
    c.kind.isArray = false → d.kind.isArray = false → Undashed c → Undashed d →
      (c.token = d.token ↔ SameSignature c d)

theorem Kept.stableBijection {l : Ledger} (h : Kept l) : StableBijection l := by
  have hstable (key : String) (later : List Request) :
      key ∈ ((l.serve (.token key)).serveAll later).table.keys ∧
        ((l.serve (.token key)).serveAll later).table.token key = l.table.token key := by
    have hkey : key ∈ (l.serve (.token key)).table.keys :=
      (TokenTable.mem_add _ _ _).mpr (.inr rfl)
    have hself : (l.serve (.token key)).table.token key = l.table.token key :=
      TokenTable.token_add_self l.table key
    exact ⟨mem_serveAll hkey later, (token_serveAll hkey later).trans hself⟩
  refine ⟨h.counted.size_eq, h.counted.isNumeralOf_token, fun key later => (hstable key later).2,
    ?_, ?_, ?_⟩
  · intro key other later
    obtain ⟨hmem, htoken⟩ := hstable key later
    constructor
    · intro h'
      exact (token_injective _ hmem (htoken.trans h'.symm)).symm
    · rintro rfl
      exact htoken
  · intro c hc
    exact (h.issued c hc).listed.token_eq
  · intro c hc d hd hmember hmember' hdash hdash'
    exact token_eq_iff (h.issued c hc) (h.issued d hd) hmember hmember' hdash hdash'

/-- Between two resets the tokens of a table are the numerals of the places of the keys in the
order in which they were first asked for, whoever asked. -/
theorem run_stableBijection (keys : List String) (events : List Event) :
    StableBijection ((Ledger.start keys).run events) :=
  ((kept_start keys).run events).stableBijection

/-- A static method of one argument. -/
def absolute (type : String) : Record where
  kind := .method
  declaringType := some "java.lang.Math"
  name := some "abs"
  returnType := type
  argTypes := [type]
  isStatic := true
  typeParams := []
  complete := rfl

/-- Two overloads of one method are made after a reset. -/
def overloads : List Event :=
  [.reset, .request (.token "b"), .request (.record (absolute "int") none),
    .request (.addRecord (Catalog.empty none TokenTable.empty) (absolute "double"))]

/-- The component of an overload in a table. -/
def overload (type : String) (table : TokenTable) : Component :=
  ((unregistered (absolute type) none).register table).1

theorem undashed_overload (type : String) (table : TokenTable) :
    Undashed (overload type table) := by
  rintro declaringType ⟨⟩
  decide

/-- Overloads are told apart as components, not by their tokens. -/
theorem run_stableBijection_overloads :
    ∃ c d, ((Ledger.start ["a"]).run overloads).made = [c, d] ∧ c.identity ≠ d.identity ∧
      c.token = d.token := by
  refine ⟨overload "int" (TokenTable.empty.add "b"),
    overload "double" ((TokenTable.empty.add "b").add (overload "int" TokenTable.empty).key),
    rfl, by decide, ?_⟩
  have htold := (run_stableBijection ["a"] overloads).made_told_apart _ List.mem_cons_self _
    (List.mem_cons_of_mem _ List.mem_cons_self) rfl rfl
    (undashed_overload _ _) (undashed_overload _ _)
  exact htold.mpr ⟨rfl, rfl, rfl, rfl, rfl⟩

end FragmentSynthesis.Proofs.TokenHistories
