import FragmentSynthesis.Proofs.CorpusCounts
import FragmentSynthesis.Proofs.FullMatches
import FragmentSynthesis.Proofs.HarvestOutlines
import Mathlib.Algebra.BigOperators.Group.List.Basic
import Mathlib.Algebra.GroupWithZero.Nat

namespace FragmentSynthesis.Proofs.CorpusHistories

open FragmentSynthesis.Components
open FragmentSynthesis.Corpora
open FragmentSynthesis.Expression
open FragmentSynthesis.ExpressionText
open FragmentSynthesis.Faults
open FragmentSynthesis.NameSets
open FragmentSynthesis.OrderedMaps
open FragmentSynthesis.Programs
open FragmentSynthesis.Proofs.CorpusCounts
open FragmentSynthesis.Proofs.Declarations
open FragmentSynthesis.Proofs.FullMatches
open FragmentSynthesis.Proofs.HarvestOutlines
open FragmentSynthesis.Proofs.Outlines
open FragmentSynthesis.Proofs.SameLines
open FragmentSynthesis.Proofs.UniqueDecoding
open FragmentSynthesis.Statement
open FragmentSynthesis.StatementText
open FragmentSynthesis.TokenTables
open FragmentSynthesis.Traversal
open FragmentSynthesis.TypeRefs

/-- Remembers programs one after the other, unless one of them is refused. -/
def rememberEach (c : Corpus) : List Program → Except Fault (Corpus × List Bool)
  | [] => .ok (c, [])
  | p :: rest =>
      match c.remember p with
      | (_, .error fault) => .error fault
      | (c, .ok answer) => do
          let (c, answers) ← rememberEach c rest
          return (c, answer :: answers)

/-- No program before has the same encoding. -/
def IsFirst (before : List Program) (p : Program) : Prop :=
  ∀ q ∈ before, encodeProgram q ≠ encodeProgram p

instance (before : List Program) (p : Program) : Decidable (IsFirst before p) :=
  inferInstanceAs (Decidable (∀ q ∈ before, _))

/-- Which programs of a run are the first of their encoding. -/
def answersTo (before : List Program) : List Program → List Bool
  | [] => []
  | p :: rest => decide (IsFirst before p) :: answersTo (before ++ [p]) rest

/-- The programs of a run that are the first of their encoding. -/
def firsts (before : List Program) : List Program → List Program
  | [] => []
  | p :: rest =>
      if IsFirst before p then p :: firsts (before ++ [p]) rest else firsts (before ++ [p]) rest

/-- What is harvested from a program, if it can be. -/
def harvested (p : Program) : List Node :=
  match fragments p with
  | .ok h => nodesOf h
  | .error _ => []

theorem harvested_of_fragments {p : Program} {h : Harvest} (hp : fragments p = .ok h) :
    harvested p = nodesOf h := by
  rw [harvested, hp]

theorem harvested_copy {p copy : Program} (h : p.copy = .ok copy) :
    harvested copy = harvested p := by
  rw [harvested, harvested, fragments_copy h]

/-- Two corpora hold the same programs. -/
def SamePrograms (c d : Corpus) : Prop :=
  d.programs = c.programs ∧ d.programKeys = c.programKeys

theorem SamePrograms.trans {c d e : Corpus} (h : SamePrograms c d) (h' : SamePrograms d e) :
    SamePrograms c e :=
  ⟨h'.1.trans h.1, h'.2.trans h.2⟩

theorem samePrograms_addStatement (c : Corpus) (key : String) (s : Stmt) :
    SamePrograms c (c.addStatement key s) := by
  unfold Corpus.addStatement
  split <;> exact ⟨rfl, rfl⟩

theorem samePrograms_addExpression (c : Corpus) (key : String) (e : Expr) :
    SamePrograms c (c.addExpression key e) := by
  unfold Corpus.addExpression
  split <;> exact ⟨rfl, rfl⟩

theorem samePrograms_addStatements (c : Corpus) (ss : List Stmt) :
    SamePrograms c (c.addStatements ss).1 := by
  induction ss generalizing c with
  | nil => exact ⟨rfl, rfl⟩
  | cons s rest ih =>
      unfold Corpus.addStatements
      split
      · exact (samePrograms_addStatement c _ s).trans (ih _)
      · exact ⟨rfl, rfl⟩

theorem samePrograms_addExpressions (c : Corpus) (es : List Expr) :
    SamePrograms c (c.addExpressions es).1 := by
  induction es generalizing c with
  | nil => exact ⟨rfl, rfl⟩
  | cons e rest ih =>
      unfold Corpus.addExpressions
      split
      · split
        · exact (samePrograms_addExpression c _ e).trans (ih _)
        · exact ⟨rfl, rfl⟩
      · exact ⟨rfl, rfl⟩

theorem samePrograms_addHarvest (c : Corpus) (h : Harvest) :
    SamePrograms c (c.addHarvest h).1 := by
  have hstatements := samePrograms_addStatements c h.statements
  unfold Corpus.addHarvest
  split
  · rename_i middle hmiddle
    rw [hmiddle] at hstatements
    exact hstatements.trans (samePrograms_addExpressions middle h.expressions)
  · rename_i middle fault hmiddle
    rw [hmiddle] at hstatements
    exact hstatements

/-- What a corpus holds after some programs: the keys of all of them, copies of the first of each
encoding, and what these give when they are harvested. -/
structure Recorded (before kept : List Program) (c : Corpus) : Prop where
  keys : ∀ key, key ∈ c.programKeys ↔ ∃ p ∈ before, encodeProgram p = .ok key
  encoded : ∀ p ∈ before, ∃ key, encodeProgram p = .ok key
  copies : List.Forall₂ (fun p copy => p.copy = .ok copy) kept c.programs
  taken : ∀ copy ∈ c.programs, ∃ h, fragments copy = .ok h
  tallied : Tallied (c.programs.flatMap harvested) c

theorem recorded_empty : Recorded [] [] Corpus.empty where
  keys := fun key => by simp [Corpus.empty]
  encoded := List.forall_mem_nil _
  copies := List.Forall₂.nil
  taken := List.forall_mem_nil _
  tallied := tallied_empty

section

variable {before kept : List Program} {c d : Corpus} {p : Program} {answer : Bool}

theorem exists_code_append {key : String} (hkey : encodeProgram p = .ok key)
    (before : List Program) (other : String) :
    (∃ q ∈ before ++ [p], encodeProgram q = .ok other) ↔
      (∃ q ∈ before, encodeProgram q = .ok other) ∨ other = key := by
  constructor
  · rintro ⟨q, hq, hcode⟩
    rcases List.mem_append.mp hq with hq | hq
    · exact .inl ⟨q, hq, hcode⟩
    · rw [List.mem_singleton.mp hq, hkey] at hcode
      exact .inr (Except.ok.inj hcode).symm
  · rintro (⟨q, hq, hcode⟩ | rfl)
    · exact ⟨q, List.mem_append_left [p] hq, hcode⟩
    · exact ⟨p, List.mem_append_right before List.mem_cons_self, hkey⟩

theorem isFirst_iff (hc : Recorded before kept c) {key : String}
    (hkey : encodeProgram p = .ok key) : IsFirst before p ↔ key ∉ c.programKeys := by
  rw [hc.keys key, IsFirst, hkey]
  constructor
  · rintro h ⟨q, hq, hcode⟩
    exact h q hq hcode
  · intro h q hq hcode
    exact h ⟨q, hq, hcode⟩

theorem keep_cases {copy : Program} (hd : c.keep copy = (d, .ok answer)) :
    answer = true ∧ ∃ h, fragments copy = .ok h ∧
      Corpus.addHarvest { c with programs := c.programs ++ [copy] } h = (d, none) := by
  unfold Corpus.keep at hd
  dsimp only at hd
  split at hd
  · cases hd
  · rename_i harvest hharvest
    split at hd
    · rename_i after hafter
      cases hd
      exact ⟨rfl, harvest, hharvest, hafter⟩
    · cases hd

theorem Recorded.encoded_append (hc : Recorded before kept c) {key : String}
    (hkey : encodeProgram p = .ok key) :
    ∀ q ∈ before ++ [p], ∃ code, encodeProgram q = .ok code :=
  List.forall_mem_append.mpr ⟨hc.encoded, List.forall_mem_singleton.mpr ⟨key, hkey⟩⟩

theorem Recorded.keep (hc : Recorded before kept c) {key : String}
    (hkey : encodeProgram p = .ok key) {copy : Program} (hcopy : p.copy = .ok copy)
    (hd : Corpus.keep { c with programKeys := c.programKeys ++ [key] } copy = (d, .ok answer)) :
    answer = true ∧ Recorded (before ++ [p]) (kept ++ [p]) d := by
  obtain ⟨hanswer, h, hharvest, hadd⟩ := keep_cases hd
  have hsame := samePrograms_addHarvest
    { c with programKeys := c.programKeys ++ [key], programs := c.programs ++ [copy] } h
  rw [hadd] at hsame
  obtain ⟨hprograms, hkeys⟩ := hsame
  dsimp only at hprograms hkeys
  refine ⟨hanswer, ?_, hc.encoded_append hkey, ?_, ?_, ?_⟩
  · intro other
    rw [hkeys, exists_code_append hkey, List.mem_append, List.mem_singleton, hc.keys other]
  · rw [hprograms]
    exact List.rel_append hc.copies (List.Forall₂.cons hcopy List.Forall₂.nil)
  · rw [hprograms]
    exact List.forall_mem_append.mpr ⟨hc.taken, List.forall_mem_singleton.mpr ⟨h, hharvest⟩⟩
  · rw [hprograms, List.flatMap_append, List.flatMap_singleton, harvested_of_fragments hharvest]
    have hbase : Tallied (c.programs.flatMap harvested)
        { c with programKeys := c.programKeys ++ [key], programs := c.programs ++ [copy] } :=
      ⟨hc.tallied.counts, hc.tallied.codes, hc.tallied.kept, hc.tallied.coded, hc.tallied.typed⟩
    exact hbase.addHarvest hadd

theorem Recorded.remember (hc : Recorded before kept c) (hd : c.remember p = (d, .ok answer)) :
    answer = decide (IsFirst before p) ∧
      Recorded (before ++ [p]) (if IsFirst before p then kept ++ [p] else kept) d := by
  unfold Corpus.remember at hd
  split at hd
  · cases hd
  · rename_i key hkey
    split at hd
    · rename_i hmem
      cases hd
      have hnot : ¬IsFirst before p := fun h => (isFirst_iff hc hkey).mp h hmem
      rw [if_neg hnot]
      refine ⟨(decide_eq_false hnot).symm, ?_, hc.encoded_append hkey, hc.copies, hc.taken,
        hc.tallied⟩
      intro other
      rw [exists_code_append hkey, ← hc.keys other]
      constructor
      · exact Or.inl
      · rintro (hother | rfl)
        · exact hother
        · exact hmem
    · rename_i hmem
      have hfirst : IsFirst before p := (isFirst_iff hc hkey).mpr hmem
      rw [if_pos hfirst, decide_eq_true hfirst]
      dsimp only at hd
      split at hd
      · cases hd
      · rename_i copy hcopy
        exact hc.keep hkey hcopy hd

theorem Recorded.remember_again (hc : Recorded before kept c) (hp : ¬IsFirst before p)
    {key : String} (hkey : encodeProgram p = .ok key) : c.remember p = (c, .ok false) := by
  have hmem : key ∈ c.programKeys := by
    by_contra hmem
    exact hp ((isFirst_iff hc hkey).mpr hmem)
  unfold Corpus.remember
  simp only [hkey, if_pos hmem]

theorem Recorded.rememberEach {run : List Program} {answers : List Bool}
    (hc : Recorded before kept c) (hd : rememberEach c run = .ok (d, answers)) :
    answers = answersTo before run ∧
      Recorded (before ++ run) (kept ++ firsts before run) d := by
  induction run generalizing before kept c answers with
  | nil =>
      cases hd
      rw [List.append_nil, firsts, List.append_nil]
      exact ⟨rfl, hc⟩
  | cons p rest ih =>
      unfold CorpusHistories.rememberEach at hd
      split at hd
      · cases hd
      · rename_i after answer hremember
        obtain ⟨⟨final, others⟩, hrest, hd⟩ := ok_of_bind hd
        cases hd
        obtain ⟨rfl, hafter⟩ := hc.remember hremember
        obtain ⟨rfl, hfinal⟩ := ih hafter hrest
        rw [List.append_assoc, List.singleton_append] at hfinal
        refine ⟨rfl, ?_⟩
        rw [firsts]
        split
        · rename_i hfirst
          rwa [if_pos hfirst, List.append_assoc, List.singleton_append] at hfinal
        · rename_i hfirst
          rwa [if_neg hfirst] at hfinal

end

/-- Programs of a run that have one encoding give as many nodes of each encoding when they are
harvested. -/
def AlikeHarvests (run : List Program) : Prop :=
  ∀ p ∈ run, ∀ q ∈ run, encodeProgram p = encodeProgram q → ∀ key,
    (harvested p).countP (hasCode key) = (harvested q).countP (hasCode key)

/-- The counts are the same whatever the order of the run. -/
def OrderFree (run : List Program) (c : Corpus) : Prop :=
  ∀ run' d answers, run'.Perm run → rememberEach Corpus.empty run' = .ok (d, answers) →
    ∀ f, d.frequency f = c.frequency f

/-- No program is refused, whatever the order of the run. -/
def NeverRefused (run : List Program) : Prop :=
  ∀ run', run'.Perm run → ∃ d answers, rememberEach Corpus.empty run' = .ok (d, answers)

theorem recorded_of_rememberEach {run : List Program} {c : Corpus} {answers : List Bool}
    (h : rememberEach Corpus.empty run = .ok (c, answers)) :
    answers = answersTo [] run ∧ Recorded run (firsts [] run) c := by
  have hall := recorded_empty.rememberEach h
  rwa [List.nil_append, List.nil_append] at hall

section

variable {run : List Program} {c : Corpus}

theorem mem_firsts {before : List Program} {p : Program} (h : p ∈ firsts before run) :
    p ∈ run ∧ IsFirst before p := by
  induction run generalizing before with
  | nil => exact (List.not_mem_nil h).elim
  | cons q rest ih =>
      have hlater (h : p ∈ firsts (before ++ [q]) rest) : p ∈ q :: rest ∧ IsFirst before p := by
        obtain ⟨hp, hfirst⟩ := ih h
        exact ⟨List.mem_cons_of_mem q hp, fun r hr => hfirst r (List.mem_append_left [q] hr)⟩
      rw [firsts] at h
      split at h
      · rename_i hq
        rcases List.mem_cons.mp h with rfl | h
        · exact ⟨List.mem_cons_self, hq⟩
        · exact hlater h
      · exact hlater h

theorem nodup_firsts (before : List Program) :
    ((firsts before run).map encodeProgram).Nodup := by
  induction run generalizing before with
  | nil => exact List.nodup_nil
  | cons p rest ih =>
      rw [firsts]
      split
      · rw [List.map_cons, List.nodup_cons]
        refine ⟨?_, ih _⟩
        intro hmem
        obtain ⟨q, hq, hcode⟩ := List.mem_map.mp hmem
        exact (mem_firsts hq).2 p (List.mem_append_right before List.mem_cons_self) hcode.symm
      · exact ih _

theorem exists_first {before : List Program} {p : Program} (hp : p ∈ run)
    (hfirst : IsFirst before p) :
    ∃ q ∈ firsts before run, encodeProgram q = encodeProgram p := by
  induction run generalizing before with
  | nil => exact (List.not_mem_nil hp).elim
  | cons q rest ih =>
      rw [firsts]
      by_cases hcode : encodeProgram q = encodeProgram p
      · have hq : IsFirst before q := fun r hr => hcode ▸ hfirst r hr
        rw [if_pos hq]
        exact ⟨q, List.mem_cons_self, hcode⟩
      · have hrest : p ∈ rest := by
          rcases List.mem_cons.mp hp with rfl | hp
          · exact (hcode rfl).elim
          · exact hp
        have hlater : IsFirst (before ++ [q]) p :=
          List.forall_mem_append.mpr ⟨hfirst, List.forall_mem_singleton.mpr hcode⟩
        obtain ⟨r, hr, hrcode⟩ := ih hrest hlater
        refine ⟨r, ?_, hrcode⟩
        split
        · exact List.mem_cons_of_mem q hr
        · exact hr

theorem perm_firsts {run' : List Program} (h : run'.Perm run) :
    ((firsts [] run').map encodeProgram).Perm ((firsts [] run).map encodeProgram) := by
  have hsub {xs ys : List Program} (hxs : ∀ p ∈ xs, p ∈ ys) (code : Except Fault String)
      (hcode : code ∈ (firsts [] xs).map encodeProgram) :
      code ∈ (firsts [] ys).map encodeProgram := by
    obtain ⟨p, hp, rfl⟩ := List.mem_map.mp hcode
    obtain ⟨q, hq, hcode⟩ :=
      exists_first (hxs p (mem_firsts hp).1) (List.forall_mem_nil _)
    exact hcode ▸ List.mem_map_of_mem hq
  rw [List.perm_ext_iff_of_nodup (nodup_firsts []) (nodup_firsts [])]
  intro code
  constructor
  · exact hsub (fun p hp => h.mem_iff.mp hp) code
  · exact hsub (fun p hp => h.mem_iff.mpr hp) code

/-- How many nodes of an encoding the programs of an encoding give. -/
def yield (run : List Program) (key : String) (code : Except Fault String) : Nat :=
  match run.find? fun p => encodeProgram p = code with
  | some p => (harvested p).countP (hasCode key)
  | none => 0

theorem yield_eq (h : AlikeHarvests run) {p : Program} (hp : p ∈ run) (key : String) :
    yield run key (encodeProgram p) = (harvested p).countP (hasCode key) := by
  unfold yield
  split
  · rename_i q hq
    have hcode : encodeProgram q = encodeProgram p := by
      simpa using List.find?_some hq
    exact h q (List.mem_of_find?_eq_some hq) p hp hcode key
  · rename_i hnone
    have := List.find?_eq_none.mp hnone p hp
    simp at this

theorem countP_copies {kept copies : List Program}
    (h : List.Forall₂ (fun p copy => p.copy = .ok copy) kept copies) (key : String) :
    (copies.flatMap harvested).countP (hasCode key) =
      (kept.map fun p => (harvested p).countP (hasCode key)).sum := by
  induction h with
  | nil => rfl
  | cons hcopy _ ih =>
      rw [List.flatMap_cons, List.countP_append, ih, harvested_copy hcopy, List.map_cons,
        List.sum_cons]

theorem sum_yield (h : AlikeHarvests run) {kept : List Program} (hkept : ∀ p ∈ kept, p ∈ run)
    (key : String) :
    (kept.map fun p => (harvested p).countP (hasCode key)).sum =
      ((kept.map encodeProgram).map (yield run key)).sum := by
  rw [List.map_map]
  congr 1
  apply List.map_congr_left
  intro p hp
  exact (yield_eq h (hkept p hp) key).symm

theorem orderFree_of_alikeHarvests (hc : Recorded run (firsts [] run) c)
    (h : AlikeHarvests run) : OrderFree run c := by
  intro run' d answers hperm hremember f
  obtain ⟨-, hd⟩ := recorded_of_rememberEach hremember
  have hsum (key : String) :
      (d.programs.flatMap harvested).countP (hasCode key) =
        (c.programs.flatMap harvested).countP (hasCode key) := by
    rw [countP_copies hc.copies, countP_copies hd.copies,
      sum_yield h (fun p hp => (mem_firsts hp).1),
      sum_yield h (fun p hp => hperm.mem_iff.mp (mem_firsts hp).1)]
    exact ((perm_firsts hperm).map _).sum_eq
  cases hcode : encodeNode f with
  | error fault => cases f <;> simp only [Corpus.frequency, hcode] <;> rfl
  | ok key => rw [hc.tallied.frequency_eq hcode, hd.tallied.frequency_eq hcode, hsum]

theorem countP_nodesOf (h : Harvest) (key : String) :
    (nodesOf h).countP (hasCode key) =
      (h.statements.map encodeStmt).countP (fun code => decide (code = .ok key)) +
        (h.expressions.map encode).countP fun code => decide (code = .ok key) := by
  rw [nodesOf, List.countP_append, List.countP_map, List.countP_map, List.countP_map,
    List.countP_map]
  rfl

theorem firsts_congr {before before' : List Program}
    (h : ∀ p, IsFirst before p ↔ IsFirst before' p) : firsts before run = firsts before' run := by
  induction run generalizing before before' with
  | nil => rfl
  | cons p rest ih =>
      have hlater (q : Program) : IsFirst (before ++ [p]) q ↔ IsFirst (before' ++ [p]) q := by
        simp only [IsFirst, List.forall_mem_append]
        exact and_congr_left fun _ => h q
      rw [firsts, firsts, ih hlater]
      simp only [h p]

theorem firsts_pair {p q : Program} (h : encodeProgram p = encodeProgram q)
    (rest : List Program) : firsts [] (p :: q :: rest) = p :: firsts [p, q] rest := by
  have hp : IsFirst [] p := List.forall_mem_nil _
  have hq : ¬IsFirst [p] q := fun hq => hq p List.mem_cons_self h
  rw [firsts, if_pos hp, List.nil_append, firsts, if_neg hq]
  rfl

theorem exists_perm_pair {α : Type} {l : List α} {a b : α} (ha : a ∈ l) (hb : b ∈ l)
    (hne : a ≠ b) : ∃ rest, (a :: b :: rest).Perm l := by
  obtain ⟨front, back, rfl⟩ := List.append_of_mem ha
  have hb' : b ∈ front ++ back := by
    rcases List.mem_append.mp hb with hb | hb
    · exact List.mem_append_left back hb
    · exact List.mem_append_right front (List.mem_of_ne_of_mem hne.symm hb)
  obtain ⟨front', back', heq⟩ := List.append_of_mem hb'
  refine ⟨front' ++ back', List.Perm.trans ?_ List.perm_middle.symm⟩
  rw [heq]
  exact (List.perm_middle.symm).cons a

/-- Where no order is refused, counts that are the same in any order come from programs that are
harvested alike: of two with one encoding either may come first. -/
theorem alikeHarvests_of_orderFree (hall : NeverRefused run) (h : OrderFree run c) :
    AlikeHarvests run := by
  intro p hp q hq hcode key
  by_cases heq : p = q
  · rw [heq]
  -- Two orders that differ in which of the two comes first, and so is the one that is kept.
  obtain ⟨rest, hperm⟩ := exists_perm_pair hp hq heq
  have hperm' : (q :: p :: rest).Perm run := (List.Perm.swap p q rest).trans hperm
  obtain ⟨d, answers, hremember⟩ := hall _ hperm
  obtain ⟨e, answers', hremember'⟩ := hall _ hperm'
  obtain ⟨-, hd⟩ := recorded_of_rememberEach hremember
  obtain ⟨-, he⟩ := recorded_of_rememberEach hremember'
  have hrest : firsts [q, p] rest = firsts [p, q] rest := by
    apply firsts_congr
    intro r
    simp only [IsFirst, List.forall_mem_cons]
    exact and_left_comm
  have hcounts : ∀ f, encodeNode f = .ok key →
      (harvested p).countP (hasCode key) = (harvested q).countP (hasCode key) := by
    intro f hf
    have hsame := (h _ d _ hperm hremember f).trans (h _ e _ hperm' hremember' f).symm
    rw [hd.tallied.frequency_eq hf, he.tallied.frequency_eq hf, countP_copies hd.copies,
      countP_copies he.copies, firsts_pair hcode, firsts_pair hcode.symm, hrest,
      List.map_cons, List.map_cons, List.sum_cons, List.sum_cons] at hsame
    exact Nat.add_right_cancel (Except.ok.inj hsame)
  by_cases hsome : ∃ f ∈ harvested p ++ harvested q, hasCode key f = true
  · obtain ⟨f, -, hf⟩ := hsome
    exact hcounts f (of_decide_eq_true hf)
  · have hnone (nodes : List Node) (hnodes : ∀ f ∈ nodes, f ∈ harvested p ++ harvested q) :
        nodes.countP (hasCode key) = 0 :=
      List.countP_eq_zero.mpr fun f hf hcode => hsome ⟨f, hnodes f hf, hcode⟩
    rw [hnone _ fun f hf => List.mem_append_left _ hf, hnone _ fun f hf =>
      List.mem_append_right _ hf]

/-- Programs that can be read back from their encodings are harvested alike. -/
theorem alikeHarvests_of_readable {table : TokenTable} (h : ∀ p ∈ run, Readable table p)
    (hcodes : ∀ p ∈ run, ∃ code, encodeProgram p = .ok code) : AlikeHarvests run := by
  intro p hp q hq heq key
  obtain ⟨code, hcode⟩ := hcodes p hp
  have hcode' := heq.symm.trans hcode
  obtain ⟨first, hfirst, -, -⟩ := fragments_listing (h p hp) hcode
  obtain ⟨second, hsecond, -, -⟩ := fragments_listing (h q hq) hcode'
  obtain ⟨hstmts, hexprs⟩ :=
    codes_of_encodeProgram (h p hp) (h q hq) hcode hcode' hfirst hsecond
  rw [harvested_of_fragments hfirst, harvested_of_fragments hsecond, countP_nodesOf, countP_nodesOf,
    hstmts, hexprs]

end

/-- What holds of a corpus after a run in which no program was refused. It answers whether a
program is the first of its encoding and holds copies of those that are. Of what these give it
keeps one node of each encoding, and counts all. -/
structure Remembered (run : List Program) (c : Corpus) (answers : List Bool) : Prop where
  answers_eq : answers = answersTo [] run
  copies : List.Forall₂ (fun p copy => p.copy = .ok copy) (firsts [] run) c.programs
  coded : ∀ f ∈ c.all, ∃ key, encodeNode f = .ok key
  distinct : (c.all.map encodeNode).Nodup
  size_eq : c.size = c.all.length
  keptOnce : ∀ p ∈ c.programs, ∃ h, fragments p = .ok h ∧
    ∀ n ∈ nodesOf h, c.all.countP (equals n) = 1 ∧
      ∀ f ∈ c.all, ∃ same, sameNode n f = .ok same
  typed : ∀ type es, c.expressions.get? type = some es → ∀ e ∈ es, e.type.normal = type
  frequency_eq : ∀ f key, encodeNode f = .ok key →
    c.frequency f = .ok ((c.programs.flatMap harvested).countP (hasCode key))

theorem Recorded.proper {before kept : List Program} {c : Corpus} (hc : Recorded before kept c) :
    ∀ n ∈ c.programs.flatMap harvested, IsProper n := by
  intro n hn
  obtain ⟨p, hp, hn⟩ := List.mem_flatMap.mp hn
  obtain ⟨h, hh⟩ := hc.taken p hp
  rw [harvested_of_fragments hh] at hn
  exact (proper_fragments hh).nodes n hn

theorem Recorded.remembered {run : List Program} {c : Corpus}
    (hc : Recorded run (firsts [] run) c) : Remembered run c (answersTo [] run) where
  answers_eq := rfl
  copies := hc.copies
  coded := by
    intro f hf
    obtain ⟨key, -, hkey⟩ := hc.tallied.coded f (hc.tallied.kept f hf)
    exact ⟨key, hkey⟩
  distinct := hc.tallied.nodup_codes
  size_eq := hc.tallied.size_eq
  keptOnce := by
    intro p hp
    obtain ⟨h, hh⟩ := hc.taken p hp
    refine ⟨h, hh, ?_⟩
    intro n hn
    have hseen : n ∈ c.programs.flatMap harvested := by
      refine List.mem_flatMap.mpr ⟨p, hp, ?_⟩
      rwa [harvested_of_fragments hh]
    refine ⟨hc.tallied.countP_equals hc.proper hseen, ?_⟩
    intro f hf
    have hkept := hc.tallied.kept f hf
    obtain ⟨x, -, hx⟩ := hc.tallied.coded n hseen
    obtain ⟨y, -, hy⟩ := hc.tallied.coded f hkept
    exact ⟨_, sameNode_eq (hc.proper n hseen) (hc.proper f hkept) hx hy⟩
  typed := by
    intro type es hes
    exact hc.tallied.typed _ ((get?_eq_some_iff c.expressions type es).mp hes)
  frequency_eq := fun f key hf => hc.tallied.frequency_eq hf

/-- A run in which no program was refused leaves a corpus as promised. Its counts do not depend on
the order of the run if programs of one encoding are harvested alike, and only then as long as no
order is refused. Programs that can be read back from their encodings are harvested alike. -/
theorem rememberEach_remembered {run : List Program} {c : Corpus} {answers : List Bool}
    (h : rememberEach Corpus.empty run = .ok (c, answers)) :
    Remembered run c answers ∧ (AlikeHarvests run → OrderFree run c) ∧
      (NeverRefused run → OrderFree run c → AlikeHarvests run) ∧
      ∀ table, (∀ p ∈ run, Readable table p) → AlikeHarvests run := by
  obtain ⟨rfl, hc⟩ := recorded_of_rememberEach h
  refine ⟨hc.remembered, orderFree_of_alikeHarvests hc, alikeHarvests_of_orderFree, ?_⟩
  intro table hreadable
  exact alikeHarvests_of_readable hreadable hc.encoded

theorem rememberEach_pair {p q : Program} (hp : (Corpus.empty.remember p).2 = .ok true)
    {key : String} (hkey : encodeProgram p = .ok key) (hkey' : encodeProgram q = .ok key) :
    rememberEach Corpus.empty [p, q] = .ok ((Corpus.empty.remember p).1, [true, false]) := by
  have hremember : Corpus.empty.remember p = ((Corpus.empty.remember p).1, .ok true) := by
    rw [← hp]
  obtain ⟨-, hc⟩ := recorded_empty.remember hremember
  have hnot : ¬IsFirst ([] ++ [p]) q := fun h => h p List.mem_cons_self (hkey.trans hkey'.symm)
  have hagain := hc.remember_again hnot hkey'
  unfold rememberEach
  rw [hremember]
  dsimp only
  rw [rememberEach, hagain]
  rfl

theorem sortNames_nil : sortNames [] = [] :=
  sortNames_eq (List.Perm.refl _) List.Pairwise.nil

theorem encodeProgram_undeclared (p : Program) (hlocals : p.scope.locals.keys = [])
    (hcounters : p.scope.counters.sorted = []) :
    encodeProgram p = (do
      let statements ← encodeBlock p.statements
      let result ← match p.result with
        | none => pure ""
        | some e => do
            let text ← encode e
            pure ("R" ++ text)
      return "P" ++ concat [] ++ concat [] ++ "\x7b" ++ statements ++ "\x7d" ++ result) := by
  rw [encodeProgram, hlocals, sortNames_nil, hcounters]
  rfl

/-- The encoding of `tally`. -/
def tallyCode : String :=
  "P\x7bavn;c1:0ex;int;vxs;\x7bi?\x7bavn;o+vn;c1:1\x7d\x7d\x7dRvn;"

theorem encodeProgram_tally : encodeProgram tally = .ok tallyCode := by
  rw [encodeProgram_undeclared tally rfl sortNames_nil]
  decide +kernel

theorem readable_tally : Readable TokenTable.empty tally where
  statements := by
    have hn : Plain "n" := by decide
    have hx : Plain "x" := by decide
    have hint : Plain "int" := by decide
    have hxs : Plain "xs" := by decide
    have hinner : StmtEncodable TokenTable.empty (.branch 2 (.angelic none)
        [.assign 3 (.variable "n" "int")
          (.binary .add (.variable "n" "int") (.literal (.int 1) "int"))]) :=
      ⟨trivial, ⟨hn, hn, trivial⟩, trivial⟩
    exact ⟨⟨hn, trivial⟩, ⟨⟨hx, hint⟩, hxs, hinner, trivial⟩, trivial⟩
  result := by
    rintro e ⟨⟩
    have hn : Plain "n" := by decide
    exact hn
  front := by
    have hkeys : tally.scope.locals.keys = [] := rfl
    have hcounters : tally.scope.counters.sorted = [] := sortNames_nil
    rw [frontItems, sortedLocals, hkeys, sortNames_nil, hcounters]
    exact List.forall_mem_nil _

theorem rememberEach_remembered_tally :
    ∃ c, rememberEach Corpus.empty [tally, tally] = .ok (c, [true, false]) ∧
      Remembered [tally, tally] c [true, false] ∧ OrderFree [tally, tally] c ∧
      c.frequency (.expr (.variable "n" "int")) = .ok 2 := by
  have hnew : (Corpus.empty.remember tally).2 = .ok true := by
    simp only [Corpus.remember, encodeProgram_tally]
    decide +kernel
  have hfrequency :
      (Corpus.empty.remember tally).1.frequency (.expr (.variable "n" "int")) = .ok 2 := by
    simp only [Corpus.remember, encodeProgram_tally]
    decide +kernel
  have hrun := rememberEach_pair hnew encodeProgram_tally encodeProgram_tally
  obtain ⟨hremembered, horder, -, halike⟩ := rememberEach_remembered hrun
  refine ⟨_, hrun, hremembered, horder (halike TokenTable.empty ?_), hfrequency⟩
  intro p hp
  simp only [List.mem_cons, List.not_mem_nil, or_false, or_self] at hp
  exact hp ▸ readable_tally

/-- A static method that makes what it belongs to. -/
def makeRecord : Record where
  kind := .method
  declaringType := some "Maker"
  name := some "make"
  returnType := "Maker"
  argTypes := []
  isStatic := true
  typeParams := []
  complete := rfl

/-- A static method of two arguments. -/
def pickRecord : Record where
  kind := .method
  declaringType := some "Maker"
  name := some "pick"
  returnType := "int"
  argTypes := ["Maker", "int"]
  isStatic := true
  typeParams := []
  complete := rfl

def makeMethod : Component :=
  ((unregistered makeRecord none).register TokenTable.empty).1

def pickMethod : Component :=
  ((unregistered pickRecord none).register
    ((unregistered makeRecord none).register TokenTable.empty).2).1

/-- The static method without a receiver. -/
def made : Expr :=
  .use makeMethod none []

/-- A program that returns the result of a method of two arguments. -/
def picked (receiver : Option Expr) (args : List Expr) : Program :=
  { Program.new "f" "int" (OrderedMap.ofList [("a", "Maker"), ("b", "int")]) with
    result := some (.use pickMethod receiver args) }

/-- The one static method is called on the result of the other. -/
def chained : Program :=
  picked (some made) [.variable "a" "Maker", .variable "b" "int"]

/-- The one static method takes the result of the other, which is called on a variable. -/
def nested : Program :=
  picked none [.use makeMethod (some (.variable "a" "Maker")) [], .variable "b" "int"]

def pickedCode : String :=
  "P\x7b\x7dRf1:f0:va;vb;"

theorem encodeProgram_chained : encodeProgram chained = .ok pickedCode := by
  rw [encodeProgram_undeclared chained rfl sortNames_nil]
  decide +kernel

theorem encodeProgram_nested : encodeProgram nested = .ok pickedCode := by
  rw [encodeProgram_undeclared nested rfl sortNames_nil]
  decide +kernel

/-- Where static methods have receivers, programs of one encoding need not be harvested alike, and
the order in which they are remembered decides what is counted. -/
theorem frequency_not_orderFree :
    (chained.isKnown = true ∧ nested.isKnown = true) ∧
      ∃ c d, rememberEach Corpus.empty [chained, nested] = .ok (c, [true, false]) ∧
        rememberEach Corpus.empty [nested, chained] = .ok (d, [true, false]) ∧
        c.frequency (.expr made) = .ok 1 ∧ d.frequency (.expr made) = .ok 0 := by
  have hchained : (Corpus.empty.remember chained).2 = .ok true := by
    simp only [Corpus.remember, encodeProgram_chained]
    decide +kernel
  have hnested : (Corpus.empty.remember nested).2 = .ok true := by
    simp only [Corpus.remember, encodeProgram_nested]
    decide +kernel
  refine ⟨⟨by decide, by decide⟩, _, _,
    rememberEach_pair hchained encodeProgram_chained encodeProgram_nested,
    rememberEach_pair hnested encodeProgram_nested encodeProgram_chained, ?_, ?_⟩
  · simp only [Corpus.remember, encodeProgram_chained]
    decide +kernel
  · simp only [Corpus.remember, encodeProgram_nested]
    decide +kernel

end FragmentSynthesis.Proofs.CorpusHistories
