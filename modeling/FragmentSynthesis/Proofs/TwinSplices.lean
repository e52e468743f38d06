import FragmentSynthesis.Proofs.Replacements

/-!
Two splices of one fragment into one program, in which different names are chosen. Both are offered
the same candidates, declare the same names and record a replacement for the same names. What was
chosen shows in the names of variables alone, where each splice has put a parameter or field of the
same type.
-/

namespace FragmentSynthesis.Proofs.TwinSplices

open FragmentSynthesis.Expression
open FragmentSynthesis.OrderedMaps
open FragmentSynthesis.Programs
open FragmentSynthesis.Proofs.Declarations
open FragmentSynthesis.Proofs.KnownFragments
open FragmentSynthesis.Proofs.Mentions
open FragmentSynthesis.Proofs.Replacements
open FragmentSynthesis.Proofs.SpliceSteps
open FragmentSynthesis.Scopes
open FragmentSynthesis.Splicing
open FragmentSynthesis.Statement

/-- Names that are the same, or those of parameters or fields of one type. -/
def Exchangeable (before : Scope) (a b : String) : Prop :=
  a = b ∨ ∃ type, before.parameters.get? a = some type ∧ before.parameters.get? b = some type

/-- Mentions that differ at most in the names of variables, which are exchangeable. -/
structure Alike (before : Scope) (a b : Mention) : Prop where
  role : b.role = a.role
  binder : a.role.isBinder = true → b.name = a.name
  name : Exchangeable before a.name b.name

theorem alike_refl (before : Scope) (a : Mention) : Alike before a a :=
  ⟨rfl, fun _ => rfl, .inl rfl⟩

theorem alike_variable {before : Scope} {x y : String} (type : String)
    (h : Exchangeable before x y) : Alike before ⟨.variable type, x⟩ ⟨.variable type, y⟩ where
  role := rfl
  binder hrole := by cases hrole
  name := h

theorem Alike.eq_of_isBinder {before : Scope} {a b : Mention} (h : Alike before a b)
    (hrole : a.role.isBinder = true) : b = a :=
  congrArg₂ Mention.mk h.role (h.binder hrole)

/-- Two splices into one program that agree on everything but what was chosen. -/
structure Twins (before : Scope) (s t : Splice) : Prop where
  parameters : s.scope.parameters = before.parameters
  scope : t.scope = s.scope
  offers : t.offers = s.offers
  keys : t.renames.keys = s.renames.keys
  replacements : ∀ name a b, s.renames.get? name = some a → t.renames.get? name = some b →
    Exchangeable before a b

theorem twins_start (renames : OrderedMap String String) (p : Program) :
    Twins p.scope (start renames p) (start renames p) where
  parameters := rfl
  scope := rfl
  offers := rfl
  keys := rfl
  replacements _ _ _ h h' := .inl (Option.some.inj (h.symm.trans h'))

theorem get?_eq_none_iff {α β : Type} [DecidableEq α] (m : OrderedMap α β) (key : α) :
    m.get? key = none ↔ key ∉ m.keys := by
  rw [mem_keys_iff, Option.eq_none_iff_forall_ne_some, not_exists]

variable {choose choose' : Chooser} {before : Scope} {s s' t t' : Splice} {m a b : Mention}

theorem Twins.new_iff (hs : Twins before s s') (name : String) :
    s'.renames.get? name = none ↔ s.renames.get? name = none := by
  rw [get?_eq_none_iff, get?_eq_none_iff, hs.keys]

theorem Twins.record (hs : Twins before s s') {name replacement replacement' : String}
    (ht : t.renames = s.renames.insert name replacement)
    (ht' : t'.renames = s'.renames.insert name replacement')
    (hparameters : t.scope.parameters = s.scope.parameters) (hscope : t'.scope = t.scope)
    (hoffers : t'.offers = t.offers) (hexchange : Exchangeable before replacement replacement') :
    Twins before t t' where
  parameters := hparameters.trans hs.parameters
  scope := hscope
  offers := hoffers
  keys := by rw [ht, ht', OrderedMap.keys_insert, OrderedMap.keys_insert, hs.keys]
  replacements other x y hx hy := by
    rw [ht, OrderedMap.get?_insert] at hx
    rw [ht', OrderedMap.get?_insert] at hy
    split at hx
    · rename_i hname
      rw [if_pos hname] at hy
      rwa [← Option.some.inj hx, ← Option.some.inj hy]
    · rename_i hname
      rw [if_neg hname] at hy
      exact hs.replacements other x y hx hy

theorem Twins.declareAs (hs : Twins before s s') (name : String) (d : Mention) :
    Twins before (declareAs s name d) (declareAs s' name d) :=
  hs.record rfl rfl (parameters_enter s.scope d) (congrArg (enter · d) hs.scope) hs.offers
    (.inl rfl)

theorem exchangeable_of_candidates (hchoose : Lawful choose) (hchoose' : Lawful choose')
    {scope : Scope} {type : String} (hparameters : scope.parameters = before.parameters)
    (hoffer : candidates scope type ≠ []) (asked asked' : Nat) :
    Exchangeable before (choose asked (candidates scope type))
      (choose' asked' (candidates scope type)) := by
  refine .inr ⟨type, ?_, ?_⟩ <;> rw [← hparameters]
  · exact get?_of_mem_candidates (hchoose asked _ hoffer)
  · exact get?_of_mem_candidates (hchoose' asked' _ hoffer)

/-- Which way a step goes depends on the names that have replacements and on the scope. So the two
splices go the same way. -/
theorem twins_step (hchoose : Lawful choose) (hchoose' : Lawful choose') (hs : Twins before s s')
    (h : Step choose s m a t) (h' : Step choose' s' m b t') :
    Twins before t t' ∧ Alike before a b := by
  have hscope := hs.scope
  cases h with
  | @replaced type name replacement h =>
      cases h' with
      | replaced h' => exact ⟨hs, alike_variable type (hs.replacements name _ _ h h')⟩
      | kept hnew' h' => cases h.symm.trans ((hs.new_iff name).mp hnew')
      | chosen hnew' hname' hoffer' h' => cases h.symm.trans ((hs.new_iff name).mp hnew')
      | declared hnew' hname' hoffer' h' => cases h.symm.trans ((hs.new_iff name).mp hnew')
      | bound hrole h' => cases hrole
  | @kept type name hnew h =>
      cases h' with
      | replaced h' => cases h'.symm.trans ((hs.new_iff name).mpr hnew)
      | kept hnew' h' => exact ⟨hs, alike_refl before _⟩
      | chosen hnew' hname' hoffer' h' => exact absurd (hscope ▸ h) hname'
      | declared hnew' hname' hoffer' h' => exact absurd (hscope ▸ h) hname'
      | bound hrole h' => cases hrole
  | @chosen type name replacement hnew hname hoffer h =>
      cases h' with
      | replaced h' => cases h'.symm.trans ((hs.new_iff name).mpr hnew)
      | kept hnew' h' => exact absurd (hscope ▸ h') hname
      | chosen hnew' hname' hoffer' h' =>
          -- The offers are the same, though the choices may not be.
          rw [hscope] at h'
          have hexchange := exchangeable_of_candidates hchoose hchoose' hs.parameters hoffer
            s.offers.length s'.offers.length
          rw [← h, ← h'] at hexchange
          refine ⟨hs.record rfl rfl rfl hscope ?_ hexchange, alike_variable type hexchange⟩
          rw [hs.offers, hscope]
      | declared hnew' hname' hoffer' h' => exact absurd (hscope ▸ hoffer') hoffer
      | bound hrole h' => cases hrole
  | @declared type name replacement hnew hname hoffer h =>
      cases h' with
      | replaced h' => cases h'.symm.trans ((hs.new_iff name).mpr hnew)
      | kept hnew' h' => exact absurd (hscope ▸ h') hname
      | chosen hnew' hname' hoffer' h' => exact absurd (hscope ▸ hoffer) hoffer'
      | declared hnew' hname' hoffer' h' =>
          rw [hscope, ← h] at h'
          subst h'
          exact ⟨hs.declareAs name _, alike_refl before _⟩
      | bound hrole h' => cases hrole
  | @bound role name replacement hrole h =>
      cases h' with
      | bound hrole' h' =>
          rw [hscope, ← h] at h'
          subst h'
          exact ⟨hs.declareAs name _, alike_refl before _⟩
      | _ => cases hrole

theorem twins_steps (hchoose : Lawful choose) (hchoose' : Lawful choose')
    {ms as bs : List Mention} (hs : Twins before s s') (h : Steps choose s ms as t)
    (h' : Steps choose' s' ms bs t') : Twins before t t' ∧ List.Forall₂ (Alike before) as bs := by
  induction h generalizing s' bs with
  | nil s =>
      cases h'
      exact ⟨hs, .nil⟩
  | cons first rest ih =>
      cases h' with
      | cons first' rest' =>
          obtain ⟨htwins, halike⟩ := twins_step hchoose hchoose' hs first first'
          obtain ⟨htwins', hall⟩ := ih htwins rest'
          exact ⟨htwins', .cons halike hall⟩

theorem bindersOf_eq_of_alike {as bs : List Mention} (h : List.Forall₂ (Alike before) as bs) :
    bindersOf bs = bindersOf as := by
  induction h with
  | nil => rfl
  | @cons a b as bs hab hrest ih =>
      unfold bindersOf at ih ⊢
      rw [List.filter_cons, List.filter_cons, hab.role, ih]
      split
      · rename_i hrole
        rw [hab.eq_of_isBinder hrole]
      · rfl

/-- What two splices of a fragment into a program make of it. Neither stops. They are offered the
same lists of candidates, one after the other, and leave the same program. The binders have the same
names, and the same names have replacements, in the same order. The fragments are of one shape, and
mention exchangeable names. -/
structure SameButChoices (p : Program) (r r' : Fitted) : Prop where
  unstopped : r.fault = none ∧ r'.fault = none
  offers : r'.offers = r.offers
  program : r'.program = r.program
  binders : bindersOf (mentionsInNode r'.fragment) = bindersOf (mentionsInNode r.fragment)
  keys : r'.renames.keys = r.renames.keys
  shape : shapeNode r'.fragment = shapeNode r.fragment
  names : List.Forall₂ (Alike p.scope) (mentionsInNode r.fragment) (mentionsInNode r'.fragment)

theorem fit_sameButChoices (choose choose' : Chooser) (hchoose : Lawful choose)
    (hchoose' : Lawful choose') (renames : OrderedMap String String) (p : Program) (n : Node)
    (hknown : nodeKnown n = true) :
    SameButChoices p (fit choose renames p n) (fit choose' renames p n) := by
  obtain ⟨htwins, hnames⟩ := twins_steps hchoose hchoose' (twins_start renames p)
    (fit_steps choose renames p hknown) (fit_steps choose' renames p hknown)
  refine ⟨⟨fault_fit choose renames p hknown, fault_fit choose' renames p hknown⟩, htwins.offers,
    congrArg (fun scope => { p with scope := scope }) htwins.scope, bindersOf_eq_of_alike hnames,
    htwins.keys, ?_, hnames⟩
  rw [shapeNode_fit choose' renames p hknown, shapeNode_fit choose renames p hknown]

/-- Picks the last of each list. -/
def pickLast : Chooser :=
  fun _ offer => offer.getLastD ""

theorem lawful_pickLast : Lawful pickLast := by
  intro asked offer hoffer
  rw [pickLast, List.getLastD_eq_getLast?, List.getLast?_eq_some_getLast hoffer]
  exact List.getLast_mem hoffer

/-- Counts up to a limit, with a total that is also read as a text. -/
def runningTotal : Node :=
  .stmt (.loop 1 (.counting "i" true)
    (.concrete (.binary .lt (.variable "i" "int") (.variable "limit" "int")))
    [.assign 2 (.variable "total" "int")
      (.binary .add (.variable "total" "java.lang.String") (.variable "unit" "char"))])

/-- A program with two parameters of one type. -/
def twoNumbers : Program :=
  Program.new "f" "void" (OrderedMap.ofList [("a", "int"), ("i", "char[]"), ("b", "int")])

theorem fit_sameButChoices_runningTotal :
    Lawful pickFirst ∧ Lawful pickLast ∧ nodeKnown runningTotal = true ∧
      let r := fit pickFirst (OrderedMap.ofList [("q", "a")]) twoNumbers runningTotal
      let r' := fit pickLast (OrderedMap.ofList [("q", "a")]) twoNumbers runningTotal
      SameButChoices twoNumbers r r' ∧ r.offers = [["a", "b"], ["a", "b"]] ∧
        (mentionsInNode r.fragment).map Mention.name = ["j", "j", "a", "a", "a", "var0"] ∧
        (mentionsInNode r'.fragment).map Mention.name = ["j", "j", "b", "b", "b", "var0"] :=
  ⟨lawful_pickFirst, lawful_pickLast, rfl,
    fit_sameButChoices pickFirst pickLast lawful_pickFirst lawful_pickLast
      (OrderedMap.ofList [("q", "a")]) twoNumbers runningTotal rfl,
    by decide +kernel, by decide +kernel, by decide +kernel⟩

end FragmentSynthesis.Proofs.TwinSplices
