import FragmentSynthesis.Proofs.CatalogSteps
import FragmentSynthesis.Proofs.TextLines
import FragmentSynthesis.Proofs.TypeTokens
import Mathlib.Data.List.Forall2

namespace FragmentSynthesis.Proofs.TypeParameters

open FragmentSynthesis.Components
open FragmentSynthesis.Proofs.CatalogSteps
open FragmentSynthesis.Proofs.TextLines
open FragmentSynthesis.Proofs.TypeTokens
open FragmentSynthesis.TokenTables
open FragmentSynthesis.TypeName
open FragmentSynthesis.TypeRefs

def brackets : Nat → String
  | 0 => ""
  | depth + 1 => "[]" ++ brackets depth

def argumentText : Option String → String
  | none => ""
  | some text => "<" ++ text ++ ">"

/-- A name, type arguments if there are any, and brackets, all on one line. -/
structure TypeForm where
  name : String
  arguments : Option String
  depth : Nat
  isRun : IsRun name.toList
  oneLine : ∀ text ∈ arguments, '\n' ∉ text.toList

/-- The text of a type: its name, its arguments and its brackets. -/
def TypeForm.text (f : TypeForm) : String :=
  f.name ++ (argumentText f.arguments ++ brackets f.depth)

theorem brackets_succ (depth : Nat) :
    (brackets (depth + 1)).toList = '[' :: ']' :: (brackets depth).toList := by
  rw [brackets, String.toList_append]
  rfl

theorem mem_brackets (depth : Nat) : ∀ c ∈ (brackets depth).toList, c = '[' ∨ c = ']' := by
  induction depth with
  | zero => exact List.forall_mem_nil _
  | succ depth ih =>
      rw [brackets_succ]
      exact List.forall_mem_cons.mpr ⟨.inl rfl, List.forall_mem_cons.mpr ⟨.inr rfl, ih⟩⟩

theorem notMem_brackets {c : Char} (hopen : c ≠ '[') (hclose : c ≠ ']') (depth : Nat) :
    c ∉ (brackets depth).toList :=
  fun hc => (mem_brackets depth c hc).elim hopen hclose

section

variable (f : TypeForm)

theorem toList_text_none (h : f.arguments = none) :
    f.text.toList = f.name.toList ++ (brackets f.depth).toList := by
  rw [TypeForm.text, h, argumentText, String.empty_append, String.toList_append]

theorem toList_text_some {text : String} (h : f.arguments = some text) :
    f.text.toList =
      f.name.toList ++ '<' :: (text.toList ++ '>' :: (brackets f.depth).toList) := by
  simp [TypeForm.text, h, argumentText]

theorem TypeForm.erasure_text : erasure f.text = f.name ++ brackets f.depth := by
  have hline : '\n' ∉ f.name.toList := notMem_of_forall f.isRun.2 (by decide)
  have hopen : '<' ∉ f.name.toList := notMem_of_forall f.isRun.2 (by decide)
  have hbrackets : '\n' ∉ (brackets f.depth).toList := notMem_brackets (by decide) (by decide) _
  rw [← String.toList_inj]
  cases h : f.arguments with
  | none =>
      have htext := toList_text_none f h
      rw [erasure_eq, String.toList_ofList, htext, eraseLine_of_notMem, String.toList_append]
      · rw [List.mem_append, not_or]
        exact ⟨hopen, notMem_brackets (by decide) (by decide) _⟩
      · rw [htext, List.mem_append, not_or]
        exact ⟨hline, hbrackets⟩
  | some text =>
      have htext := toList_text_some f h
      rw [erasure_eq, String.toList_ofList, htext, eraseLine_arguments _ hopen,
        String.toList_append]
      · exact notMem_brackets (by decide) (by decide) _
      · have hinner := f.oneLine text h
        simp [htext, hline, hinner, hbrackets]

theorem strip_brackets {name : List Char} (hname : IsRun name) (depth : Nat) :
    ((name ++ (brackets depth).toList).reverse.dropWhile fun c => c == '[' || c == ']').reverse =
      name := by
  have hbrackets : ∀ c ∈ (brackets depth).toList.reverse, (c == '[' || c == ']') = true := by
    intro c hc
    rcases mem_brackets depth c (List.mem_reverse.mp hc) with rfl | rfl <;> rfl
  rw [List.reverse_append, List.dropWhile_append_of_pos hbrackets]
  have hstop : name.reverse.dropWhile (fun c => c == '[' || c == ']') = name.reverse := by
    cases h : name.reverse with
    | nil => rfl
    | cons c rest =>
        have hc : c ∈ name := List.mem_reverse.mp (h ▸ List.mem_cons_self)
        have hopen : c ≠ '[' := fun heq => notMem_of_forall hname.2 (by decide) (heq ▸ hc)
        have hclose : c ≠ ']' := fun heq => notMem_of_forall hname.2 (by decide) (heq ▸ hc)
        simp [hopen, hclose]
  rw [hstop, List.reverse_reverse]

theorem erase_text (i : Instantiation) :
    i.erase f.text =
      (if f.name ∈ i.typeParams then object else f.name) ++ brackets f.depth := by
  simp only [Instantiation.erase, f.erasure_text, String.toList_append, strip_brackets f.isRun,
    String.ofList_toList, List.drop_left]
  split
  · rfl
  · rw [← String.toList_append, String.ofList_toList]

end

/-- Some type parameter stands in a type, not as a part of a longer name. -/
def Mentions (typeParams : List String) (type : String) : Prop :=
  ∃ T ∈ typeParams, StandsIn T.toList type.toList

/-- A name without qualifiers. -/
def IsSimple (name : String) : Prop :=
  name ≠ "" ∧ ∀ c ∈ name.toList, isSegmentChar c = true

theorem isRun_of_isSimple {name : String} (h : IsSimple name) : IsRun name.toList := by
  refine ⟨fun hnil => h.1 (String.toList_inj.mp hnil), fun c hc => ?_⟩
  rw [isTokenChar]
  exact Bool.or_eq_true_iff.mpr (.inl (h.2 c hc))

theorem not_isSimple_object : ¬ IsSimple object :=
  fun h => absurd (h.2 '.' (by decide)) (by decide)

theorem isRun_object : IsRun object.toList :=
  isRun_of_all (by decide)

theorem standsIn_array_iff {name base : List Char} (hname : IsRun name) (hbase : IsRun base)
    (depth : Nat) : StandsIn name (base ++ (brackets depth).toList) ↔ name = base := by
  refine standsIn_append_iff hname hbase.2 fun c hc => ?_
  rcases mem_brackets depth c hc with rfl | rfl <;> decide

section

variable {typeParams : List String}

theorem mentions_array_iff (hparams : ∀ T ∈ typeParams, IsSimple T) {base : String}
    (hbase : IsRun base.toList) (depth : Nat) :
    Mentions typeParams (base ++ brackets depth) ↔ base ∈ typeParams := by
  rw [Mentions, String.toList_append]
  constructor
  · rintro ⟨T, hT, hstands⟩
    have heq := (standsIn_array_iff (isRun_of_isSimple (hparams T hT)) hbase depth).mp hstands
    exact String.toList_inj.mp heq ▸ hT
  · intro hmem
    exact ⟨base, hmem, (standsIn_array_iff hbase hbase depth).mpr rfl⟩

theorem standsIn_text (f : TypeForm) : StandsIn f.name.toList f.text.toList := by
  cases h : f.arguments with
  | none =>
      rw [toList_text_none f h]
      exact (standsIn_array_iff f.isRun f.isRun f.depth).mpr rfl
  | some text =>
      rw [toList_text_some f h]
      exact (standsIn_append_cons_iff f.isRun f.isRun.2 (by decide)).mpr (.inl rfl)

theorem name_eq_text {f : TypeForm} (h : IsRun f.text.toList) : f.name = f.text :=
  String.toList_inj.mp ((standsIn_run_iff h.2).mp (standsIn_text f))

theorem mentions_iff {i : Instantiation} (hparams : ∀ T ∈ i.typeParams, IsSimple T)
    (type : String) : i.mentions type = true ↔ Mentions i.typeParams type := by
  simp only [Instantiation.mentions, List.any_eq_true, decide_eq_true_iff, Mentions]
  constructor
  · rintro ⟨T, htoken, hT⟩
    exact ⟨T, hT, (mem_tokens_iff (isRun_of_isSimple (hparams T hT)) type).mp htoken⟩
  · rintro ⟨T, hT, hstands⟩
    exact ⟨T, (mem_tokens_iff (isRun_of_isSimple (hparams T hT)) type).mpr hstands, hT⟩

end

theorem tokens_free {typeParams : List String} (hparams : ∀ T ∈ typeParams, IsSimple T)
    {name : String} (h : ¬ Mentions typeParams name) :
    ∀ token ∈ tokens name, token ∉ typeParams := by
  intro token htoken hT
  have hrun := isRun_of_isSimple (hparams token hT)
  exact h ⟨token, hT, (mem_tokens_iff hrun name).mp htoken⟩

/-- What a type becomes when a component is made: no type parameter is left in it; a type parameter
becomes the given type or the root type, and an array of one becomes an array of the root type
where no type is given; what is no type parameter only loses its type arguments. -/
structure Resolved (typeParams : List String) (parameter : Option String) (type : String)
    (result : TypeRef) : Prop where
  free : ∃ name, result = .named name ∧ ¬ Mentions typeParams name
  bare : type ∈ typeParams → result = .named (parameter.getD object)
  array : parameter = none → ∀ T ∈ typeParams, ∀ depth, type = T ++ brackets depth →
    result = .named (object ++ brackets depth)
  erased : ∀ f : TypeForm, f.text = type → f.name ∉ typeParams →
    result = .named (f.name ++ brackets f.depth)

section

variable {typeParams : List String} {parameter : Option String}

theorem resolves_iff (hparams : ∀ T ∈ typeParams, IsSimple T) (type : String) :
    Instantiation.resolves ⟨typeParams, parameter.map .named⟩ type = true ↔
      parameter = none ∨ type ∈ typeParams ∨ ¬ Mentions typeParams type := by
  rw [Instantiation.resolves, Bool.or_eq_true_iff, Bool.or_eq_true_iff, decide_eq_true_iff,
    Bool.not_eq_true', ← Bool.not_eq_true, mentions_iff hparams, Option.isNone_iff_eq_none,
    Option.map_eq_none_iff]
  exact or_assoc.trans or_left_comm

theorem not_mentions_object (hparams : ∀ T ∈ typeParams, IsSimple T) (depth : Nat) :
    ¬ Mentions typeParams (object ++ brackets depth) := by
  rw [mentions_array_iff hparams isRun_object]
  exact fun hmem => not_isSimple_object (hparams _ hmem)

theorem convert_bare {type : String} (h : type ∈ typeParams) :
    Instantiation.convert ⟨typeParams, parameter.map .named⟩ type =
      .named (parameter.getD object) := by
  rw [Instantiation.convert, if_pos h]
  cases parameter <;> rfl

theorem convert_text (f : TypeForm) (h : f.text ∉ typeParams) :
    Instantiation.convert ⟨typeParams, parameter.map .named⟩ f.text =
      .named ((if f.name ∈ typeParams then object else f.name) ++ brackets f.depth) := by
  rw [Instantiation.convert, if_neg h, erase_text]

/-- However a type is read as a form, what becomes of it is the same. -/
theorem erased_unique (i : Instantiation) {f g : TypeForm} (h : g.text = f.text) :
    (if f.name ∈ i.typeParams then object else f.name) ++ brackets f.depth =
      (if g.name ∈ i.typeParams then object else g.name) ++ brackets g.depth := by
  rw [← erase_text, ← erase_text, h]

/-- An array of nothing but a name. -/
def TypeForm.array (name : String) (hname : IsRun name.toList) (depth : Nat) : TypeForm where
  name := name
  arguments := none
  depth := depth
  isRun := hname
  oneLine := fun _ h => nomatch h

theorem TypeForm.array_text {name : String} (hname : IsRun name.toList) (depth : Nat) :
    (TypeForm.array name hname depth).text = name ++ brackets depth := by
  rw [TypeForm.text]
  exact congrArg (name ++ ·) String.empty_append

theorem resolved_bare (hparams : ∀ T ∈ typeParams, IsSimple T)
    (hparameter : ∀ type ∈ parameter, ¬ Mentions typeParams type) {type : String}
    (htype : type ∈ typeParams) :
    Resolved typeParams parameter type (.named (parameter.getD object)) where
  free := by
    refine ⟨_, rfl, ?_⟩
    cases parameter with
    | none => exact String.append_empty (s := object) ▸ not_mentions_object hparams 0
    | some given => exact hparameter given rfl
  bare := fun _ => rfl
  array := by
    rintro rfl T hT depth rfl
    have hrun := isRun_of_isSimple (hparams T hT)
    have htext := TypeForm.array_text hrun depth
    have hname : T = T ++ brackets depth :=
      (name_eq_text (htext.symm ▸ isRun_of_isSimple (hparams _ htype))).trans htext
    have hdepth : brackets depth = "" := String.append_right_inj T |>.mp (by simpa using hname.symm)
    rw [hdepth, String.append_empty]
    rfl
  erased := by
    rintro f rfl hname
    have heq := name_eq_text (isRun_of_isSimple (hparams _ htype))
    exact absurd (heq.symm ▸ htype) hname

theorem resolved_erased (hparams : ∀ T ∈ typeParams, IsSimple T) (f : TypeForm)
    (h : f.text ∉ typeParams) :
    Resolved typeParams parameter f.text
      (.named ((if f.name ∈ typeParams then object else f.name) ++ brackets f.depth)) where
  free := by
    refine ⟨_, rfl, ?_⟩
    split
    · exact not_mentions_object hparams _
    · rename_i hname
      rwa [mentions_array_iff hparams f.isRun]
  bare := fun htype => absurd htype h
  array := by
    rintro - T hT depth htext
    have hrun := isRun_of_isSimple (hparams T hT)
    have harray := TypeForm.array_text hrun depth
    have hsame := erased_unique ⟨typeParams, none⟩ (harray.trans htext.symm)
    exact congrArg TypeRef.named (hsame.trans (congrArg (· ++ brackets depth) (if_pos hT)))
  erased := by
    rintro g htext hname
    have hsame := erased_unique ⟨typeParams, none⟩ htext
    exact congrArg TypeRef.named
      (hsame.trans (congrArg (· ++ brackets g.depth) (if_neg hname)))

theorem resolved_convert (hparams : ∀ T ∈ typeParams, IsSimple T)
    (hparameter : ∀ type ∈ parameter, ¬ Mentions typeParams type) {type : String}
    (hform : ∃ f : TypeForm, f.text = type) :
    Resolved typeParams parameter type
      (Instantiation.convert ⟨typeParams, parameter.map .named⟩ type) := by
  obtain ⟨f, rfl⟩ := hform
  by_cases htype : f.text ∈ typeParams
  · rw [convert_bare htype]
    exact resolved_bare hparams hparameter htype
  · rw [convert_text f htype]
    exact resolved_erased hparams f htype

end

/-- The types of a record that are converted: the result of a method or field, and the arguments
of a method or constructor unless the method compares its receiver with its argument. -/
def convertedTypes (r : Record) : List String :=
  match r.kind with
  | .method => r.returnType :: if isComparison r then [] else r.argTypes
  | .constructor => r.argTypes
  | .field => [r.returnType]
  | _ => []

/-- The types of a component in the places of those that are converted. -/
def convertedRefs (r : Record) (c : Component) : List TypeRef :=
  match r.kind with
  | .method => c.returnType :: if isComparison r then [] else c.argTypes
  | .constructor => c.argTypes
  | .field => [c.returnType]
  | _ => []

/-- Whether a record is of a member of a type and not of an array operation. -/
def IsMember (r : Record) : Prop :=
  r.kind = .method ∨ r.kind = .constructor ∨ r.kind = .field

section

variable {r : Record} {parameter : Option TypeRef}

theorem valid_unregistered_iff (hkind : IsMember r) :
    (unregistered r parameter).valid = true ↔
      ∀ type ∈ convertedTypes r, Instantiation.resolves ⟨r.typeParams, parameter⟩ type = true := by
  rcases hkind with h | h | h
  · cases hc : isComparison r <;>
      simp [unregistered, convertedTypes, h, methodComponent, hc]
  · simp [unregistered, convertedTypes, h, constructorComponent]
  · simp [unregistered, convertedTypes, h, fieldComponent]

theorem convertedRefs_unregistered (hkind : IsMember r) :
    convertedRefs r (unregistered r parameter) =
      (convertedTypes r).map (Instantiation.convert ⟨r.typeParams, parameter⟩) := by
  rcases hkind with h | h | h
  · cases hc : isComparison r <;>
      simp [unregistered, convertedRefs, convertedTypes, h, methodComponent, hc]
  · simp [unregistered, convertedRefs, convertedTypes, h, constructorComponent]
  · simp [unregistered, convertedRefs, convertedTypes, h, fieldComponent]

/-- All other types of a component are the declaring type. -/
theorem types_unregistered (hkind : IsMember r) :
    ∀ ref ∈ (unregistered r parameter).returnType :: (unregistered r parameter).argTypes,
      ref ∈ convertedRefs r (unregistered r parameter) ∨ ref = .named (shown r.declaringType) := by
  rcases hkind with h | h | h
  · cases hc : isComparison r with
    | true => simp [unregistered, convertedRefs, h, methodComponent, hc]
    | false => exact fun ref href => .inl (by simpa [convertedRefs, h, hc] using href)
  · refine List.forall_mem_cons.mpr ⟨.inr ?_, fun ref href => .inl ?_⟩
    · simp [unregistered, h, constructorComponent]
    · simpa [convertedRefs, h] using href
  · simp [unregistered, convertedRefs, h, fieldComponent]

theorem declaringType_eq_some (hkind : IsMember r) : ∃ type, r.declaringType = some type := by
  have hcomplete := r.complete
  cases htype : r.declaringType with
  | some type => exact ⟨type, rfl⟩
  | none => rcases hkind with h | h | h <;> simp [lack?, h, htype, Kind.isArray] at hcomplete

theorem refuses_named (parameter : Option String) :
    refuses r (parameter.map .named) = false := by
  cases parameter <;> simp [refuses, TypeRef.isNamed]

end

/-- A component can be made of every record of a member. It is valid just if no concrete type is
given or every converted type is a type parameter or mentions none. Valid or not, its converted
types are resolved, and among the tokens of its types there is no type parameter. -/
theorem ofRecord_exact (r : Record) (parameter : Option String) (table : TokenTable)
    (hkind : IsMember r) (hforms : ∀ type ∈ convertedTypes r, ∃ f : TypeForm, f.text = type)
    (hparams : ∀ T ∈ r.typeParams, IsSimple T)
    (hdeclaring : ∀ type ∈ r.declaringType, ¬ Mentions r.typeParams type)
    (hparameter : ∀ type ∈ parameter, ¬ Mentions r.typeParams type) :
    ∃ c table', ofRecord r table (parameter.map .named) = .ok (c, table') ∧
      (c.valid = true ↔ parameter = none ∨
        ∀ type ∈ convertedTypes r, type ∈ r.typeParams ∨ ¬ Mentions r.typeParams type) ∧
      List.Forall₂ (Resolved r.typeParams parameter) (convertedTypes r) (convertedRefs r c) ∧
      ∀ ref ∈ c.returnType :: c.argTypes, ∃ name, ref = .named name ∧
        ∀ token ∈ tokens name, token ∉ r.typeParams := by
  have hresolved : ∀ type ∈ convertedTypes r, Resolved r.typeParams parameter type
      (Instantiation.convert ⟨r.typeParams, parameter.map .named⟩ type) :=
    fun type htype => resolved_convert hparams hparameter (hforms type htype)
  refine ⟨_, _, ofRecord_of_not_refuses (refuses_named parameter) table, ?_, ?_, ?_⟩
  · refine (valid_unregistered_iff hkind).trans ?_
    simp only [resolves_iff hparams]
    by_cases hnone : parameter = none <;> simp [hnone]
  · change List.Forall₂ _ _ (convertedRefs r (unregistered r (parameter.map .named)))
    rw [convertedRefs_unregistered hkind, List.forall₂_map_right_iff, List.forall₂_same]
    exact hresolved
  · intro ref href
    rcases types_unregistered hkind ref href with hconverted | rfl
    · rw [convertedRefs_unregistered hkind] at hconverted
      obtain ⟨type, htype, rfl⟩ := List.mem_map.mp hconverted
      obtain ⟨name, hname, hfree⟩ := (hresolved type htype).free
      exact ⟨name, hname, tokens_free hparams hfree⟩
    · obtain ⟨type, htype⟩ := declaringType_eq_some hkind
      rw [htype]
      exact ⟨type, rfl, tokens_free hparams (hdeclaring type htype)⟩

/-- A method of lists that takes a place, an element and a generic array, and returns an element. -/
def replaceRecord : Record where
  kind := .method
  declaringType := some "java.util.List"
  name := some "replace"
  returnType := "E"
  argTypes := ["int", "E", "java.util.Map<java.lang.String>[]"]
  isStatic := false
  typeParams := ["E"]
  complete := rfl

theorem isSimple_element : ∀ T ∈ ["E"], IsSimple T :=
  List.forall_mem_singleton.mpr ⟨by decide, List.all_eq_true.mp (by decide)⟩

theorem forms_replaceRecord :
    ∀ type ∈ convertedTypes replaceRecord, ∃ f : TypeForm, f.text = type := by
  have hname : ∃ f : TypeForm, f.text = "E" :=
    ⟨⟨"E", none, 0, isRun_of_all (by decide), nofun⟩, rfl⟩
  have hplace : ∃ f : TypeForm, f.text = "int" :=
    ⟨⟨"int", none, 0, isRun_of_all (by decide), nofun⟩, rfl⟩
  have hmap : ∃ f : TypeForm, f.text = "java.util.Map<java.lang.String>[]" :=
    ⟨⟨"java.util.Map", some "java.lang.String", 1, isRun_of_all (by decide), by decide⟩, rfl⟩
  change ∀ type ∈ ["E", "int", "E", "java.util.Map<java.lang.String>[]"], _
  simp only [List.forall_mem_cons]
  exact ⟨hname, hplace, hname, hmap, List.forall_mem_nil _⟩

theorem ofRecord_exact_replaceRecord :
    ∃ c table, ofRecord replaceRecord TokenTable.empty (some (.named "java.lang.Integer")) =
        .ok (c, table) ∧
      c.valid = true ∧ c.returnType = .named "java.lang.Integer" := by
  have hfree (type : String) (h : Instantiation.mentions ⟨["E"], none⟩ type = false) :
      ¬ Mentions ["E"] type := by
    rw [← mentions_iff (i := ⟨["E"], none⟩) isSimple_element, h]
    exact Bool.false_ne_true
  have hdeclaring : ∀ type ∈ some "java.util.List", ¬ Mentions ["E"] type := by
    rintro type ⟨⟩
    exact hfree _ (by decide)
  have hparameter : ∀ type ∈ some "java.lang.Integer", ¬ Mentions ["E"] type := by
    rintro type ⟨⟩
    exact hfree _ (by decide)
  obtain ⟨c, table, hc, hvalid, htypes, -⟩ :=
    ofRecord_exact replaceRecord (some "java.lang.Integer") TokenTable.empty (.inl rfl)
      forms_replaceRecord isSimple_element hdeclaring hparameter
  refine ⟨c, table, hc, hvalid.mpr (.inr ?_), ?_⟩
  · have helement : "E" ∈ replaceRecord.typeParams := List.mem_cons_self
    change ∀ type ∈ ["E", "int", "E", "java.util.Map<java.lang.String>[]"], _
    simp only [List.forall_mem_cons]
    exact ⟨.inl helement, .inr (hfree _ (by decide)), .inl helement, .inr (hfree _ (by decide)),
      List.forall_mem_nil _⟩
  · cases htypes with
    | cons hreturn _ => exact hreturn.bare (by decide)

end FragmentSynthesis.Proofs.TypeParameters
