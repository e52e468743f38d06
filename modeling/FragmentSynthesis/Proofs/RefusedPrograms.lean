import FragmentSynthesis.Proofs.CorpusHistories

namespace FragmentSynthesis.Proofs.RefusedPrograms

open FragmentSynthesis.Corpora
open FragmentSynthesis.Expression
open FragmentSynthesis.Faults
open FragmentSynthesis.OrderedMaps
open FragmentSynthesis.Programs
open FragmentSynthesis.Proofs.CorpusHistories
open FragmentSynthesis.Proofs.FullMatches
open FragmentSynthesis.Statement
open FragmentSynthesis.Traversal

/-- A corpus that has seen one more encoding. -/
def noted (c : Corpus) (key : String) : Corpus :=
  { c with programKeys := c.programKeys ++ [key] }

/-- A corpus that keeps one more program. -/
def kept (c : Corpus) (copy : Program) : Corpus :=
  { c with programs := c.programs ++ [copy] }

/-- A program is refused because it has no encoding or, if the encoding is new, because there is no
copy of it, or the copy cannot be harvested, or a part of the harvest cannot be taken in. -/
inductive Refused (c : Corpus) (p : Program) (fault : Fault) : Corpus → Prop
  | unencoded (h : encodeProgram p = .error fault) : Refused c p fault c
  | uncopied {key : String} (hkey : encodeProgram p = .ok key) (hnew : key ∉ c.programKeys)
      (h : p.copy = .error fault) : Refused c p fault (noted c key)
  | unharvested {key : String} {copy : Program} (hkey : encodeProgram p = .ok key)
      (hnew : key ∉ c.programKeys) (hcopy : p.copy = .ok copy) (h : fragments copy = .error fault) :
      Refused c p fault (kept (noted c key) copy)
  | untaken {key : String} {copy : Program} {harvest : Harvest} {d : Corpus}
      (hkey : encodeProgram p = .ok key) (hnew : key ∉ c.programKeys) (hcopy : p.copy = .ok copy)
      (hharvest : fragments copy = .ok harvest)
      (h : (kept (noted c key) copy).addHarvest harvest = (d, some fault)) : Refused c p fault d

variable {c d : Corpus} {p : Program} {fault : Fault}

theorem refused_of_remember (h : c.remember p = (d, .error fault)) : Refused c p fault d := by
  unfold Corpus.remember at h
  split at h
  · rename_i reason hkey
    cases h
    exact .unencoded hkey
  · rename_i key hkey
    split at h
    · cases h
    · rename_i hnew
      dsimp only at h
      split at h
      · rename_i reason hcopy
        cases h
        exact .uncopied hkey hnew hcopy
      · rename_i copy hcopy
        unfold Corpus.keep at h
        dsimp only at h
        split at h
        · rename_i reason hharvest
          cases h
          exact .unharvested hkey hnew hcopy hharvest
        · rename_i harvest hharvest
          split at h
          · cases h
          · rename_i after reason hadd
            cases h
            exact .untaken hkey hnew hcopy hharvest hadd

/-- What a refused program leaves behind if it has an encoding. The encoding is among those that
were seen, and the next answer is that the program is a duplicate. A copy is kept, if there is one.
Fragments are added only if the program can be harvested. -/
structure LeftBehind (c : Corpus) (p : Program) (key : String) (d : Corpus) : Prop where
  keys : d.programKeys = c.programKeys ++ [key]
  duplicate : d.remember p = (d, .ok false)
  programs : d.programs = c.programs ++ p.copy.toOption.toList
  fragments : ∀ reason, fragments p = .error reason →
    d.statements = c.statements ∧ d.expressions = c.expressions ∧ d.counts = c.counts

theorem remember_of_unencoded (c : Corpus) (h : encodeProgram p = .error fault) :
    c.remember p = (c, .error fault) := by
  unfold Corpus.remember
  simp only [h]

theorem remember_of_seen {key : String} (hkey : encodeProgram p = .ok key)
    (hseen : key ∈ d.programKeys) : d.remember p = (d, .ok false) := by
  unfold Corpus.remember
  simp only [hkey, if_pos hseen]

theorem duplicate_of_keys {key : String} (hkey : encodeProgram p = .ok key)
    (hkeys : d.programKeys = c.programKeys ++ [key]) : d.remember p = (d, .ok false) :=
  remember_of_seen hkey (hkeys ▸ List.mem_append_right _ List.mem_cons_self)

theorem Refused.leftBehind (h : Refused c p fault d) {key : String}
    (hkey : encodeProgram p = .ok key) : LeftBehind c p key d := by
  cases h with
  | unencoded h => cases hkey.symm.trans h
  | uncopied hkey' hnew hcopy =>
      obtain rfl := Except.ok.inj (hkey.symm.trans hkey')
      refine ⟨rfl, duplicate_of_keys (c := c) hkey rfl, ?_, fun _ _ => ⟨rfl, rfl, rfl⟩⟩
      rw [hcopy]
      exact (List.append_nil _).symm
  | unharvested hkey' hnew hcopy hharvest =>
      obtain rfl := Except.ok.inj (hkey.symm.trans hkey')
      refine ⟨rfl, duplicate_of_keys (c := c) hkey rfl, ?_, fun _ _ => ⟨rfl, rfl, rfl⟩⟩
      rw [hcopy]
      rfl
  | @untaken key' copy harvest after hkey' hnew hcopy hharvest hadd =>
      obtain rfl := Except.ok.inj (hkey.symm.trans hkey')
      have hsame := samePrograms_addHarvest (kept (noted c key) copy) harvest
      rw [hadd] at hsame
      obtain ⟨hprograms, hkeys⟩ := hsame
      refine ⟨hkeys, duplicate_of_keys (c := c) hkey hkeys, ?_, ?_⟩
      · rw [hcopy]
        exact hprograms
      · intro reason hreason
        rw [← fragments_copy hcopy] at hreason
        cases hharvest.symm.trans hreason

/-- A refusal leaves the corpus as it was exactly if the program has no encoding. Otherwise it
leaves the program behind as one that was seen. -/
theorem refused_unchanged_iff (c : Corpus) (p : Program) (fault : Fault)
    (h : (c.remember p).2 = .error fault) :
    ((c.remember p).1 = c ↔ encodeProgram p = .error fault) ∧
      ∀ key, encodeProgram p = .ok key → LeftBehind c p key (c.remember p).1 := by
  have hrefused : Refused c p fault (c.remember p).1 := refused_of_remember (Prod.ext rfl h)
  refine ⟨?_, fun key hkey => hrefused.leftBehind hkey⟩
  constructor
  · intro hsame
    cases hkey : encodeProgram p with
    | error reason =>
        rw [remember_of_unencoded c hkey] at h
        exact congrArg Except.error (Except.error.inj h)
    | ok key =>
        have hkeys := (hrefused.leftBehind hkey).keys
        rw [hsame] at hkeys
        simp at hkeys
  · intro hfault
    rw [remember_of_unencoded c hfault]

/-- Returns something that no analysis knows. -/
def returnsHole : Program :=
  { Program.new "f" "int" OrderedMap.empty with result := some (.foreign .hole) }

theorem encodeProgram_returnsHole : encodeProgram returnsHole = .ok "P\x7b\x7dR_" := by
  rw [encodeProgram_undeclared returnsHole rfl sortNames_nil]
  decide +kernel

theorem refused_unchanged_iff_returnsHole :
    let c := (Corpus.empty.remember tally).1
    let fault := Fault.unknownNode "Hole" .subExpressions
    (c.remember returnsHole).2 = .error fault ∧
      ((c.remember returnsHole).1 = c ↔ encodeProgram returnsHole = .error fault) ∧
      LeftBehind c returnsHole "P\x7b\x7dR_" (c.remember returnsHole).1 := by
  intro c fault
  have hrefused : (c.remember returnsHole).2 = .error fault := by
    simp only [c, Corpus.remember, encodeProgram_tally, encodeProgram_returnsHole]
    decide +kernel
  obtain ⟨hiff, hleft⟩ := refused_unchanged_iff c returnsHole fault hrefused
  exact ⟨hrefused, hiff, hleft _ encodeProgram_returnsHole⟩

/-- Assigns a variable and then does nothing, in a statement that no analysis knows. -/
def endsIdly : Program :=
  { Program.new "f" "int" (OrderedMap.ofList [("a", "int")]) with
    statements := [.assign 1 (.variable "b" "int") (.variable "a" "int"), .foreign (.pass 1)] }

theorem encodeProgram_endsIdly : encodeProgram endsIdly = .ok "P\x7bavb;va;_\x7d" := by
  rw [encodeProgram_undeclared endsIdly rfl sortNames_nil]
  decide +kernel

/-- A refused program can be kept, and be a duplicate when it is remembered once more, while the
corpus still has no fragment. -/
theorem refused_changes_endsIdly :
    let d := (Corpus.empty.remember endsIdly).1
    (Corpus.empty.remember endsIdly).2 = .error (.unknownNode "Pass" .fragments) ∧
      d ≠ Corpus.empty ∧ d.programs.length = 1 ∧ d.size = 0 ∧
      (d.remember endsIdly).2 = .ok false := by
  intro d
  have hrefused : (Corpus.empty.remember endsIdly).2 = .error (.unknownNode "Pass" .fragments) := by
    simp only [Corpus.remember, encodeProgram_endsIdly]
    decide +kernel
  have hkept : d.programs.length = 1 ∧ d.size = 0 := by
    simp only [d, Corpus.remember, encodeProgram_endsIdly]
    decide +kernel
  have hseen : (d.remember endsIdly).2 = .ok false := by
    simp only [d, Corpus.remember, encodeProgram_endsIdly]
    decide +kernel
  refine ⟨hrefused, ?_, hkept.1, hkept.2, hseen⟩
  intro hsame
  have hlength := hkept.1
  rw [hsame] at hlength
  cases hlength

end FragmentSynthesis.Proofs.RefusedPrograms
