import FragmentSynthesis.Components
import FragmentSynthesis.Proofs.FreshNames
import Mathlib.Data.List.Basic

namespace FragmentSynthesis.Proofs.TokenReading

open FragmentSynthesis.Base36
open FragmentSynthesis.Components
open FragmentSynthesis.Faults
open FragmentSynthesis.Proofs.FreshNames
open FragmentSynthesis.TokenTables
open FragmentSynthesis.TypeRefs

theorem toNat_digitChar {d : Nat} (h : d < 36) :
    (digitChar d).toNat = if d < 10 then 48 + d else 87 + d := by
  have hvalid : (if d < 10 then 48 + d else 87 + d).isValidChar := by
    left
    split <;> omega
  rw [digitChar, Char.ofNat, dif_pos hvalid]
  rfl

/-- The digit that a character stands for. -/
def digitOf (c : Char) : Nat :=
  if c.toNat < 58 then c.toNat - 48 else c.toNat - 87

theorem digitOf_digitChar {d : Nat} (h : d < 36) : digitOf (digitChar d) = d := by
  rw [digitOf, toNat_digitChar h]
  split <;> split <;> omega

theorem digitChar_ne_colon {d : Nat} (hd : d < 36) : digitChar d ≠ ':' := by
  intro h
  have htoNat := congrArg Char.toNat h
  rw [toNat_digitChar hd] at htoNat
  have hcolon : ':'.toNat = 58 := rfl
  split at htoNat <;> omega

theorem map_digitOf_digits (n : Nat) : ((digits n).map digitChar).map digitOf = digits n := by
  rw [List.map_map]
  refine (List.map_congr_left fun d hd => ?_).trans (List.map_id _)
  exact digitOf_digitChar (lt_of_mem_digits hd)

theorem numeral_injective {m n : Nat} (h : numeral m = numeral n) : m = n := by
  have hchars : (digits m).map digitChar = (digits n).map digitChar := by
    have hlist := congrArg String.toList h
    simp only [numeral, String.toList_ofList, List.map_reverse] at hlist
    exact List.reverse_inj.mp hlist
  rw [← value_digits m, ← value_digits n, ← map_digitOf_digits m, ← map_digitOf_digits n, hchars]

theorem colon_notMem_numeral (n : Nat) : ':' ∉ (numeral n).toList := by
  simp only [numeral, String.toList_ofList, List.map_reverse, List.mem_reverse, List.mem_map]
  rintro ⟨d, hd, hcolon⟩
  exact digitChar_ne_colon (lt_of_mem_digits hd) hcolon

theorem token_injective (table : TokenTable) {key other : String} (h : key ∈ table.keys)
    (htoken : table.token key = table.token other) : key = other :=
  (List.idxOf_inj h).mp (numeral_injective htoken)

theorem colon_notMem_token (table : TokenTable) (key : String) :
    ':' ∉ (table.token key).toList :=
  colon_notMem_numeral _

theorem separated_inj {α : Type} {sep : α} {xs ys us vs : List α} (hx : sep ∉ xs) (hy : sep ∉ ys)
    (h : xs ++ sep :: us = ys ++ sep :: vs) : xs = ys ∧ us = vs := by
  induction xs generalizing ys with
  | nil =>
      cases ys with
      | nil => exact ⟨rfl, (List.cons.inj h).2⟩
      | cons y ys =>
          rw [List.nil_append, List.cons_append, List.cons.injEq] at h
          exact (hy (h.1 ▸ List.mem_cons_self)).elim
  | cons x xs ih =>
      cases ys with
      | nil =>
          rw [List.nil_append, List.cons_append, List.cons.injEq] at h
          exact (hx (h.1 ▸ List.mem_cons_self)).elim
      | cons y ys =>
          obtain ⟨hfirst, hrest⟩ := List.cons.inj h
          obtain ⟨hxs, hus⟩ := ih (fun hmem => hx (List.mem_cons_of_mem x hmem))
            (fun hmem => hy (List.mem_cons_of_mem y hmem)) hrest
          exact ⟨by rw [hfirst, hxs], hus⟩

theorem separated_inj_last {α : Type} {sep : α} {xs ys us vs : List α} (hu : sep ∉ us)
    (hv : sep ∉ vs) (h : xs ++ sep :: us = ys ++ sep :: vs) : xs = ys ∧ us = vs := by
  have hreverse := congrArg List.reverse h
  simp only [List.reverse_append, List.reverse_cons, List.append_assoc, List.singleton_append]
    at hreverse
  obtain ⟨hus, hxs⟩ :=
    separated_inj (by rwa [List.mem_reverse]) (by rwa [List.mem_reverse]) hreverse
  exact ⟨List.reverse_inj.mp hxs, List.reverse_inj.mp hus⟩

theorem kind_of_name {kind other : Kind} {us vs : List Char}
    (h : kind.name.toList ++ us = other.name.toList ++ vs) : kind = other := by
  have hlength (k : Kind) : 5 ≤ k.name.toList.length := by
    cases k <;> decide
  have htake := congrArg (List.take 5) h
  rw [List.take_append_of_le_length (hlength kind), List.take_append_of_le_length (hlength other)]
    at htake
  cases kind <;> cases other <;> first | rfl | exact absurd htake (by decide)

/-- The text of a truth value in a key. -/
def flag (isStatic : Bool) : List Char :=
  (if isStatic then "true" else "false").toList

theorem flag_injective {a b : Bool} (h : flag a = flag b) : a = b := by
  cases a <;> cases b <;> first | rfl | exact absurd h (by decide)

theorem dash_notMem_flag (isStatic : Bool) : '-' ∉ flag isStatic := by
  cases isStatic <;> decide

theorem notMem_toString {c : Char} (hc : c.isDigit = false) (n : Nat) :
    c ∉ (toString n).toList := by
  rw [Nat.toString_eq_repr, Nat.toList_repr]
  intro h
  have hdigit : c.isDigit = true := Nat.isDigit_of_mem_toDigits (by decide) (by decide) h
  rw [hc] at hdigit
  cases hdigit

theorem toList_structuralKey (kind : Kind) (declaringType name : Option String) (arity : Nat)
    (isStatic : Bool) :
    (structuralKey kind declaringType name arity isStatic).toList =
      ((kind.name.toList ++ ((declaringType.getD "~").toList ++ '-' :: (shown name).toList))
        ++ '-' :: (toString arity).toList) ++ '-' :: flag isStatic := by
  simp only [structuralKey, String.toList_append, List.append_assoc, List.cons_append, flag]
  rfl

/-- A key tells the kind, the number of arguments and whether the component is static. The first
stands in front, and the others after the last dashes, whatever the names contain. -/
theorem structuralKey_inj {kind kind' : Kind} {declaringType declaringType' : Option String}
    {name name' : Option String} {arity arity' : Nat} {isStatic isStatic' : Bool}
    (h : structuralKey kind declaringType name arity isStatic =
      structuralKey kind' declaringType' name' arity' isStatic') :
    kind = kind' ∧ arity = arity' ∧ isStatic = isStatic' := by
  have hlist := congrArg String.toList h
  rw [toList_structuralKey, toList_structuralKey] at hlist
  obtain ⟨hfront, hflag⟩ :=
    separated_inj_last (dash_notMem_flag isStatic) (dash_notMem_flag isStatic') hlist
  obtain ⟨hnames, harity⟩ :=
    separated_inj_last (notMem_toString rfl arity) (notMem_toString rfl arity') hfront
  exact ⟨kind_of_name hnames, repr_injective (String.toList_inj.mp harity), flag_injective hflag⟩

/-- The components that have their tokens from a table: those made from records and those for
arrays. Keys that are added later do not matter. -/
inductive Issued : TokenTable → Component → Prop
  | record {r : Record} {table later : TokenTable} {parameter : Option TypeRef} {c : Component}
      (h : ofRecord r table parameter = .ok (c, later)) : Issued later c
  | array {kind : Kind} {arrayType : String} {table : TokenTable} {c : Component}
      (h : arrayOperation kind arrayType = .ok c) : Issued (c.register table).2 (c.register table).1
  | later {table : TokenTable} {c : Component} (h : Issued table c) (key : String) :
      Issued (table.add key) c

/-- An array operation belongs to no type and has no name. -/
def IsPlain (c : Component) : Prop :=
  c.kind.isArray = true → c.declaringType = none ∧ c.name = none ∧ c.isStatic = true

theorem isPlain_unregistered (r : Record) (parameter : Option TypeRef) :
    IsPlain (unregistered r parameter) := by
  unfold unregistered IsPlain
  cases hkind : r.kind with
  | method | constructor | field => exact fun h => by cases h
  | arrayGet | arraySet | arrayLength => exact fun _ => ⟨rfl, rfl, rfl⟩

theorem isPlain_arrayOperation {kind : Kind} {arrayType : String} {c : Component}
    (h : arrayOperation kind arrayType = .ok c) : IsPlain c := by
  cases kind <;> cases h <;> exact fun _ => ⟨rfl, rfl, rfl⟩

/-- The key of a component is in the table, and its token is the one that the table has for it. -/
structure Listed (table : TokenTable) (c : Component) : Prop where
  key_mem : c.key ∈ table.keys
  token_eq : c.token = table.token c.key
  plain : IsPlain c

theorem listed_register {c : Component} (hc : IsPlain c) (table : TokenTable) :
    Listed (c.register table).2 (c.register table).1 where
  key_mem := (TokenTable.mem_add _ _ _).mpr (.inr rfl)
  token_eq := (TokenTable.token_add_self table c.key).symm
  plain := hc

theorem Issued.listed {table : TokenTable} {c : Component} (h : Issued table c) :
    Listed table c := by
  induction h with
  | @record r table later parameter c h =>
      unfold ofRecord at h
      split at h
      · cases h
      · cases h
        exact listed_register (isPlain_unregistered r parameter) table
  | @array kind arrayType table c h => exact listed_register (isPlain_arrayOperation h) table
  | @later table c h key ih =>
      refine ⟨(TokenTable.mem_add _ _ _).mpr (.inl ih.key_mem), ?_, ih.plain⟩
      rw [TokenTable.token_add table key c.key ih.key_mem]
      exact ih.token_eq

theorem Listed.key_eq {table : TokenTable} {c d : Component} (hc : Listed table c)
    (hd : Listed table d) (h : c.token = d.token) : c.key = d.key :=
  token_injective table hc.key_mem (by rw [← hc.token_eq, h, hd.token_eq])

end FragmentSynthesis.Proofs.TokenReading
