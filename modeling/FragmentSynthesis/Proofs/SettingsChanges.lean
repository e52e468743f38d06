import FragmentSynthesis.Proofs.SessionSteps

namespace FragmentSynthesis.Proofs.SettingsChanges

open FragmentSynthesis.Configuration
open FragmentSynthesis.Faults
open FragmentSynthesis.FieldReading
open FragmentSynthesis.Proofs.SessionSteps
open FragmentSynthesis.Sessions
open FragmentSynthesis.Values

/-- The value of a setting. -/
def valueIn (s : Settings) : (setting : Setting) → setting.Field
  | .verbose => s.verbose
  | .mineFragments => s.mineFragments
  | .useAngelicConditions => s.useAngelicConditions
  | .useSimpleName => s.useSimpleName
  | .logTiming => s.logTiming
  | .sypetMode => s.sypetMode

theorem valueIn_put (s : Settings) (setting : Setting) (x : setting.Field) :
    valueIn (s.put setting x) setting = x := by
  cases setting <;> rfl

theorem valueIn_put_of_ne (s : Settings) {setting other : Setting} (x : setting.Field)
    (h : other ≠ setting) : valueIn (s.put setting x) other = valueIn s other := by
  cases setting <;> cases other <;> first | rfl | exact absurd rfl h

theorem ofName?_eq_some_iff {name : String} {setting : Setting} :
    Setting.ofName? name = some setting ↔ setting.name = name := by
  constructor
  · intro h
    rw [Setting.ofName?] at h
    have hname := List.find?_some h
    exact eq_of_beq hname
  · rintro rfl
    cases setting <;> decide

section

variable {validate : Validation}

/-- An entry names a setting and has a value that the field of this setting takes. -/
def Valid (validate : Validation) (entry : String × Value) : Prop :=
  ∃ setting x, setting.name = entry.1 ∧ validate setting entry.2 = .ok x

theorem configureOne_of_valid (s : Settings) {setting : Setting} {v : Value} {x : setting.Field}
    (h : validate setting v = .ok x) :
    s.configureOne validate setting.name v = .ok (s.put setting x) := by
  rw [Settings.configureOne, ofName?_eq_some_iff.mpr rfl]
  simp only [h]
  rfl

theorem configureOne_of_not_valid (s : Settings) {name : String} {v : Value}
    (h : ¬ Valid validate (name, v)) : ∃ fault, s.configureOne validate name v = .error fault := by
  rw [Settings.configureOne]
  cases hsetting : Setting.ofName? name with
  | none => exact ⟨_, rfl⟩
  | some setting =>
      cases hv : validate setting v with
      | error problem =>
          simp only [hv]
          exact ⟨_, rfl⟩
      | ok x => exact absurd ⟨setting, x, ofName?_eq_some_iff.mp hsetting, hv⟩ h

theorem entryFault?_eq_none_iff {name : String} {v : Value} :
    entryFault? validate name v = none ↔ Valid validate (name, v) := by
  constructor
  · intro h
    rw [entryFault?] at h
    cases hsetting : Setting.ofName? name with
    | none => simp [hsetting] at h
    | some setting =>
        cases hv : validate setting v with
        | error problem => simp [hsetting, hv] at h
        | ok x => exact ⟨setting, x, ofName?_eq_some_iff.mp hsetting, hv⟩
  · rintro ⟨setting, x, rfl, hx⟩
    have hx' : validate setting v = .ok x := hx
    rw [entryFault?, ofName?_eq_some_iff.mpr rfl]
    simp only [hx']

/-- Every setting that some entries name has the value that the last of these gives it, and every
other setting is as before. -/
def Applied (validate : Validation) (fields : Fields) (s t : Settings) : Prop :=
  ∀ setting : Setting,
    match valueOf? fields setting.name with
    | some v => validate setting v = .ok (valueIn t setting)
    | none => valueIn t setting = valueIn s setting

theorem valueOf?_cons (entry : String × Value) (rest : Fields) (name : String) :
    valueOf? (entry :: rest) name =
      (valueOf? rest name).or (if entry.1 == name then some entry.2 else none) := by
  rw [valueOf?, List.reverse_cons, List.find?_append, Option.map_or, ← valueOf?]
  cases h : entry.1 == name <;> simp [h]

theorem applied_nil (s : Settings) : Applied validate [] s s :=
  fun _ => rfl

theorem applied_cons {s t : Settings} {setting : Setting} {v : Value} {x : setting.Field}
    {rest : Fields} (hv : validate setting v = .ok x)
    (h : Applied validate rest (s.put setting x) t) :
    Applied validate ((setting.name, v) :: rest) s t := by
  intro other
  have hother := h other
  rw [valueOf?_cons]
  cases hlast : valueOf? rest other.name with
  | some w =>
      rw [hlast] at hother
      exact hother
  | none =>
      simp only [hlast] at hother
      rw [Option.none_or]
      by_cases hname : other = setting
      · subst hname
        rw [if_pos (beq_self_eq_true _)]
        rw [valueIn_put] at hother
        exact hv.trans (congrArg Except.ok hother.symm)
      · have hne : (setting.name == other.name) = false := by
          refine beq_eq_false_iff_ne.mpr fun heq => hname ?_
          exact Option.some.inj
            ((ofName?_eq_some_iff.mpr rfl).symm.trans (ofName?_eq_some_iff.mpr heq))
        rw [hne]
        exact hother.trans (valueIn_put_of_ne s x hname)

/-- Changes are made one after the other, and those before the first that is refused stay. -/
theorem configure_cases (fields : Fields) (s : Settings) :
    ((∀ entry ∈ fields, Valid validate entry) ∧
        ∃ t, s.configure validate fields = (t, none) ∧ Applied validate fields s t) ∨
      ∃ before entry after, fields = before ++ entry :: after ∧
        (∀ e ∈ before, Valid validate e) ∧ ¬ Valid validate entry ∧
        ∃ t fault, s.configure validate fields = (t, some fault) ∧ Applied validate before s t := by
  induction fields generalizing s with
  | nil => exact .inl ⟨List.forall_mem_nil _, s, rfl, applied_nil s⟩
  | cons first rest ih =>
      obtain ⟨name, v⟩ := first
      by_cases hfirst : Valid validate (name, v)
      · obtain ⟨setting, x, rfl, hx⟩ := hfirst
        have hstep : s.configure validate ((setting.name, v) :: rest) =
            (s.put setting x).configure validate rest := by
          rw [Settings.configure, configureOne_of_valid s hx]
        rw [hstep]
        rcases ih (s.put setting x) with ⟨hvalid, t, ht, happlied⟩ |
          ⟨before, entry, after, rfl, hbefore, hentry, t, fault, ht, happlied⟩
        · exact .inl ⟨List.forall_mem_cons.mpr ⟨⟨setting, x, rfl, hx⟩, hvalid⟩, t, ht,
            applied_cons hx happlied⟩
        · exact .inr ⟨(setting.name, v) :: before, entry, after, rfl,
            List.forall_mem_cons.mpr ⟨⟨setting, x, rfl, hx⟩, hbefore⟩, hentry, t, fault, ht,
            applied_cons hx happlied⟩
      · obtain ⟨fault, hfault⟩ := configureOne_of_not_valid s hfirst
        refine .inr ⟨[], (name, v), rest, rfl, List.forall_mem_nil _, hfirst, s, fault, ?_,
          applied_nil s⟩
        rw [Settings.configure, hfault]

end

/-- A value that is taken where settings are constructed is taken as the same where one of them is
assigned, and the other way round. -/
def SameVerdicts (constructed assigned : Validation) : Prop :=
  ∀ setting v x, constructed setting v = .ok x ↔ assigned setting v = .ok x

variable {constructed assigned : Validation}

theorem SameVerdicts.valid_iff (h : SameVerdicts constructed assigned) (entry : String × Value) :
    Valid constructed entry ↔ Valid assigned entry := by
  simp only [Valid, h _ entry.2]

theorem fields_mapping (fields : Fields) :
    (Document.content (.mapping fields)).fields .settings = .ok fields := by
  cases fields <;> rfl

theorem load_of_valid {fields : Fields} (s : Settings)
    (h : ∀ entry ∈ fields, Valid constructed entry) :
    s.load constructed assigned (.content (.mapping fields)) = s.configure assigned fields := by
  have hnone : (fields.filterMap fun entry => entryFault? constructed entry.1 entry.2) = [] :=
    List.filterMap_eq_nil_iff.mpr fun entry hentry => entryFault?_eq_none_iff.mpr (h entry hentry)
  rw [Settings.load, fields_mapping]
  simp only [hnone]

theorem load_of_not_valid (assigned : Validation) {fields : Fields} (s : Settings)
    (h : ∃ entry ∈ fields, ¬ Valid constructed entry) :
    ∃ fault, s.load constructed assigned (.content (.mapping fields)) = (s, some fault) := by
  rw [Settings.load, fields_mapping]
  cases hfaults : fields.filterMap fun entry => entryFault? constructed entry.1 entry.2 with
  | nil =>
      obtain ⟨entry, hentry, hinvalid⟩ := h
      exact absurd (entryFault?_eq_none_iff.mp (List.filterMap_eq_nil_iff.mp hfaults entry hentry))
        hinvalid
  | cons first others => exact ⟨.invalidFields (first :: others), by simp only [hfaults]⟩

/-- A file that is a mapping is refused, and nothing is changed, or all it says is applied, and the
latter exactly if each of its entries is valid. One by one, the same changes are applied up to the
first entry that is not valid. -/
theorem load_allOrNothing (hsame : SameVerdicts constructed assigned) (s : Session)
    (fields : Fields) :
    (((∀ entry ∈ fields, Valid assigned entry) ∧
        ∃ t, perform (loadSettingsWith constructed assigned (.content (.mapping fields))) s =
          (.ok (), { s with settings := t }) ∧ Applied assigned fields s.settings t) ∨
      ((∃ entry ∈ fields, ¬ Valid assigned entry) ∧
        ∃ fault, perform (loadSettingsWith constructed assigned (.content (.mapping fields))) s =
          (.error fault, s))) ∧
    (((∀ entry ∈ fields, Valid assigned entry) ∧
        ∃ t, perform (configureWith assigned fields) s = (.ok (), { s with settings := t }) ∧
          Applied assigned fields s.settings t) ∨
      ∃ before entry after, fields = before ++ entry :: after ∧
        (∀ e ∈ before, Valid assigned e) ∧ ¬ Valid assigned entry ∧
        ∃ t fault, perform (configureWith assigned fields) s =
          (.error fault, { s with settings := t }) ∧ Applied assigned before s.settings t) := by
  rw [loadSettingsWith, configureWith, perform_changeSettings, perform_changeSettings]
  rcases configure_cases fields s.settings with ⟨hvalid, t, ht, happlied⟩ |
    ⟨before, entry, after, hfields, hbefore, hentry, t, fault, ht, happlied⟩
  · have hconstructed : ∀ entry ∈ fields, Valid constructed entry :=
      fun entry hentry => (hsame.valid_iff entry).mpr (hvalid entry hentry)
    rw [load_of_valid s.settings hconstructed, ht]
    exact ⟨.inl ⟨hvalid, t, rfl, happlied⟩, .inl ⟨hvalid, t, rfl, happlied⟩⟩
  · have hmem : entry ∈ fields := hfields ▸ List.mem_append_right _ List.mem_cons_self
    -- A file is validated as a whole before anything of it is assigned.
    have hrefused : ∃ e ∈ fields, ¬ Valid constructed e :=
      ⟨entry, hmem, fun h => hentry ((hsame.valid_iff entry).mp h)⟩
    obtain ⟨refusal, hrefusal⟩ := load_of_not_valid assigned s.settings hrefused
    rw [hrefusal, ht]
    exact ⟨.inr ⟨⟨entry, hmem, hentry⟩, refusal, rfl⟩,
      .inr ⟨before, entry, after, hfields, hbefore, hentry, t, fault, rfl, happlied⟩⟩

/-- A level that is valid in front of a setting that is not known. -/
def levelFirst : Fields :=
  [("verbose", .int 4), ("unknown", .int 1)]

theorem load_allOrNothing_levelFirst :
    let s := Session.initial [] []
    SameVerdicts readField readField ∧
      (∃ fault, perform (loadSettings (.content (.mapping levelFirst))) s = (.error fault, s)) ∧
      ∃ t fault, perform (configure levelFirst) s = (.error fault, { s with settings := t }) ∧
        t.verbose = 4 := by
  intro s
  have hsame : SameVerdicts readField readField := fun _ _ _ => Iff.rfl
  have hlevel : Valid readField ("verbose", .int 4) := ⟨.verbose, (4 : Nat), rfl, rfl⟩
  have hunknown : ¬ Valid readField ("unknown", .int 1) := by
    rintro ⟨setting, x, hname, -⟩
    cases setting <;> exact absurd hname (by decide)
  have hinvalid : ¬ ∀ entry ∈ levelFirst, Valid readField entry :=
    fun h => hunknown (h _ (List.mem_cons_of_mem _ List.mem_cons_self))
  obtain ⟨hload, hconfigure⟩ := load_allOrNothing hsame s levelFirst
  obtain ⟨-, hload⟩ := hload.resolve_left fun h => hinvalid h.1
  obtain ⟨before, entry, after, hfields, -, hentry, t, fault, ht, happlied⟩ :=
    hconfigure.resolve_left fun h => hinvalid h.1
  have hbefore : before = [("verbose", .int 4)] := by
    rcases before with _ | ⟨first, _ | ⟨second, rest⟩⟩
    · cases hfields
      exact absurd hlevel hentry
    · cases hfields
      rfl
    · cases rest <;> cases hfields
  subst hbefore
  exact ⟨hsame, hload, t, fault, ht, (Except.ok.inj (happlied .verbose)).symm⟩

end FragmentSynthesis.Proofs.SettingsChanges
