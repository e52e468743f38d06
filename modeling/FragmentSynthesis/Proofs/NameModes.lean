import FragmentSynthesis.Outcomes
import FragmentSynthesis.Proofs.SessionSteps
import FragmentSynthesis.Proofs.StyleIndependence

namespace FragmentSynthesis.Proofs.NameModes

open FragmentSynthesis.Components
open FragmentSynthesis.Configuration
open FragmentSynthesis.Corpora
open FragmentSynthesis.Expression
open FragmentSynthesis.Faults
open FragmentSynthesis.Matching
open FragmentSynthesis.OrderedMaps
open FragmentSynthesis.Outcomes
open FragmentSynthesis.Programs
open FragmentSynthesis.Proofs.KnownFragments
open FragmentSynthesis.Proofs.SessionSteps
open FragmentSynthesis.Proofs.StyleIndependence
open FragmentSynthesis.Sessions
open FragmentSynthesis.Statement
open FragmentSynthesis.StatementText
open FragmentSynthesis.Stopwatches
open FragmentSynthesis.Tasks
open FragmentSynthesis.TokenTables
open FragmentSynthesis.TypeName
open FragmentSynthesis.Weight

variable {α β γ δ : Type}

/-- Whether it succeeds or not, the settings are as before afterwards. -/
def Keeps (x : SessionM α) : Prop :=
  ∀ s, (perform x s).2.settings = s.settings

section

variable {x : SessionM α} {final : SessionM Unit}

theorem keeps_pure (a : α) : Keeps (pure a) :=
  fun _ => rfl

theorem keeps_throw (fault : Fault) : Keeps (throw fault : SessionM α) :=
  fun _ => rfl

theorem keeps_lift (r : Except Fault α) : Keeps (liftM r) :=
  fun _ => rfl

theorem keeps_settings : Keeps settings :=
  fun _ => rfl

theorem keeps_write (level : Level) (message : String) : Keeps (write level message) :=
  fun _ => rfl

theorem keeps_bind {f : α → SessionM β} (hx : Keeps x) (hf : ∀ a, Keeps (f a)) :
    Keeps (x >>= f) := by
  intro s
  have hs := hx s
  cases h : perform x s with
  | mk r t =>
      rw [h] at hs
      cases r with
      | error fault =>
          rw [perform_bind_of_error h]
          exact hs
      | ok a =>
          rw [perform_bind_of_ok h]
          exact (hf a t).trans hs

theorem keeps_reified (hx : Keeps x) : Keeps (ExceptT.lift x.run) := by
  intro s
  have hs := hx s
  cases h : perform x s with
  | mk r t =>
      rw [h] at hs
      rw [perform_reified h]
      exact hs

theorem keeps_thenAlways (hx : Keeps x) (hfinal : Keeps final) : Keeps (thenAlways x final) := by
  refine keeps_bind (keeps_reified hx) fun r => keeps_bind hfinal fun _ => ?_
  cases r with
  | ok a => exact keeps_pure a
  | error fault => exact keeps_throw fault

theorem keeps_tickGlobal (operation : Stopwatch → Clock → Tick) :
    Keeps (tickGlobal operation) := by
  intro s
  cases h : s.settings.logTiming with
  | false => rw [perform_tickGlobal_of_off operation h]
  | true =>
      rw [perform_tickGlobal operation h]
      rfl

theorem keeps_timed (name : String) (hx : Keeps x) : Keeps (timed name x) :=
  keeps_bind (keeps_tickGlobal _) fun _ => keeps_thenAlways hx (keeps_tickGlobal _)

theorem keeps_withSimpleNames (flag : Bool) (hx : Keeps x) : Keeps (withSimpleNames flag x) := by
  intro s
  have hs := hx (naming flag s)
  cases h : perform x (naming flag s) with
  | mk r t =>
      rw [h] at hs
      have ht : t.settings = (naming flag s).settings := hs
      rw [perform_withSimpleNames h, naming, ht]
      rfl

end

theorem keeps_renderHere (n : Node) : Keeps (renderHere n) :=
  keeps_bind keeps_settings fun _ => keeps_lift _

theorem keeps_renderProgramHere (p : Program) : Keeps (renderProgramHere p) :=
  keeps_bind keeps_settings fun _ => keeps_lift _

theorem keeps_programText (p : Option Program) : Keeps (programText p) := by
  cases p with
  | none => exact keeps_pure ""
  | some p => exact keeps_renderProgramHere p

theorem keeps_score (p : Program) (n : Node) : Keeps (score p n) := by
  unfold score
  refine keeps_bind (keeps_lift _) fun x => keeps_bind keeps_settings fun s => ?_
  dsimp only
  split
  · exact keeps_bind (keeps_renderHere n) fun _ => keeps_bind (keeps_write _ _) fun _ => keeps_pure x
  · exact keeps_pure x

theorem keeps_scoreAll (p : Program) (fragments : List Node) : Keeps (scoreAll p fragments) := by
  induction fragments with
  | nil => exact keeps_pure []
  | cons n rest ih =>
      exact keeps_bind (keeps_score p n) fun _ => keeps_bind ih fun _ => keeps_pure _

/-- What is timed when the usefulness of fragments is measured. -/
def scored (fragments : List Node) (p : Program) : SessionM (List Binary64.Double) := do
  if 2 < (← settings).verbose then
    let text ← renderProgramHere p
    write .info ("Computing usefulness to program:\n" ++ text)
  scoreAll p fragments

theorem keeps_scored (fragments : List Node) (p : Program) : Keeps (scored fragments p) := by
  unfold scored
  refine keeps_bind keeps_settings fun s => ?_
  dsimp only
  split
  · exact keeps_bind (keeps_renderProgramHere p) fun _ => keeps_bind (keeps_write _ _) fun _ =>
      keeps_scoreAll p fragments
  · exact keeps_scoreAll p fragments

theorem meanUsefulness_eq (fragments : List Node) (p : Program) :
    meanUsefulness fragments p =
      if fragments.isEmpty then pure (Binary64.zero false)
      else timed timerName (scored fragments p) >>= fun scores =>
        pure (PairwiseSum.mean scores) :=
  rfl

theorem keeps_meanUsefulness (fragments : List Node) (p : Program) :
    Keeps (meanUsefulness fragments p) := by
  rw [meanUsefulness_eq]
  split
  · exact keeps_pure _
  · exact keeps_bind (keeps_timed _ (keeps_scored fragments p)) fun _ => keeps_pure _

theorem keeps_corpusFigures (corpus : Option Corpus) (p : Option Program) :
    Keeps (corpusFigures corpus p) := by
  cases corpus with
  | none => exact keeps_pure _
  | some c =>
      refine keeps_bind keeps_settings fun s => ?_
      dsimp only
      split
      · exact keeps_pure _
      · cases p with
        | none => exact keeps_pure _
        | some p => exact keeps_bind (keeps_meanUsefulness c.all p) fun _ => keeps_pure _

theorem keeps_programWeight (p : Option Program) : Keeps (programWeight p) := by
  cases p with
  | none => exact keeps_pure 0
  | some p => exact keeps_lift _

/-- The settings are the same, but simple names may be on in the one and off in the other. -/
def SameButNames (a b : Settings) : Prop :=
  { a with useSimpleName := b.useSimpleName } = b

/-- Two sessions whose settings differ in nothing but the name mode, while timing is off. -/
structure Alike (s t : Session) : Prop where
  settings_eq : SameButNames s.settings t.settings
  untimed : s.settings.logTiming = false

theorem SameButNames.verbose_eq {a b : Settings} (h : SameButNames a b) : b.verbose = a.verbose := by
  rw [← h]

theorem Alike.untimed_right {s t : Session} (h : Alike s t) : t.settings.logTiming = false := by
  rw [← h.settings_eq]
  exact h.untimed

theorem Alike.after {x : SessionM α} {y : SessionM β} {s t : Session} (h : Alike s t)
    (hx : Keeps x) (hy : Keeps y) : Alike (perform x s).2 (perform y t).2 where
  settings_eq := by
    rw [hx s, hy t]
    exact h.settings_eq
  untimed := by
    rw [hx s]
    exact h.untimed

/-- Two computations answer alike in any two sessions that differ in nothing but the name mode. -/
def Parallel (Related : α → β → Prop) (x : SessionM α) (y : SessionM β) : Prop :=
  ∀ s t, Alike s t → Agree Related (perform x s).1 (perform y t).1

section

variable {P : α → β → Prop} {Q : γ → δ → Prop} {x : SessionM α} {y : SessionM β}

theorem parallel_pure {a : α} {b : β} (h : P a b) : Parallel P (pure a) (pure b) :=
  fun _ _ _ => .ok h

theorem parallel_lift {r : Except Fault α} {r' : Except Fault β} (h : Agree P r r') :
    Parallel P (liftM r) (liftM r') :=
  fun _ _ _ => h

theorem parallel_write (level : Level) (message message' : String) :
    Parallel Eq (write level message) (write level message') :=
  fun _ _ _ => .ok rfl

theorem parallel_bind {f : α → SessionM γ} {g : β → SessionM δ} (hx : Keeps x) (hy : Keeps y)
    (h : Parallel P x y) (hfg : ∀ a b, P a b → Parallel Q (f a) (g b)) :
    Parallel Q (x >>= f) (y >>= g) := by
  intro s t hst
  have hagree := h s t hst
  have hafter := hst.after hx hy
  cases hs : perform x s with
  | mk r s' =>
      cases ht : perform y t with
      | mk r' t' =>
          rw [hs, ht] at hagree hafter
          cases hagree with
          | ok hab =>
              rw [perform_bind_of_ok hs, perform_bind_of_ok ht]
              exact hfg _ _ hab s' t' hafter
          | error fault =>
              rw [perform_bind_of_error hs, perform_bind_of_error ht]
              exact .error fault

theorem parallel_bind_same {f : α → SessionM γ} {g : α → SessionM δ} (hx : Keeps x)
    (h : Parallel Eq x x) (hfg : ∀ a, Parallel Q (f a) (g a)) :
    Parallel Q (x >>= f) (x >>= g) := by
  refine parallel_bind hx hx h ?_
  rintro a _ rfl
  exact hfg a

theorem parallel_bind_settings {f : Settings → SessionM γ} {g : Settings → SessionM δ}
    (hfg : ∀ a b, SameButNames a b → Parallel Q (f a) (g b)) :
    Parallel Q (settings >>= f) (settings >>= g) :=
  parallel_bind keeps_settings keeps_settings (fun _ _ h => .ok h.settings_eq) hfg

theorem perform_timed_of_off (name : String) {s : Session} (h : s.settings.logTiming = false)
    (hx : Keeps x) : perform (timed name x) s = perform x s := by
  have hstart : perform (startTimer name) s = (.ok (), s) := perform_tickGlobal_of_off _ h
  have hoff : (perform x s).2.settings.logTiming = false := by
    rw [hx s]
    exact h
  rw [timed, perform_bind_of_ok hstart]
  exact perform_thenAlways rfl (perform_tickGlobal_of_off _ hoff)

theorem parallel_timed (name : String) (hx : Keeps x) (hy : Keeps y) (h : Parallel P x y) :
    Parallel P (timed name x) (timed name y) := by
  intro s t hst
  rw [perform_timed_of_off name hst.untimed hx, perform_timed_of_off name hst.untimed_right hy]
  exact h s t hst

end

theorem parallel_renderHere {n : Node} (hn : NodeStyleBlind n) :
    Parallel (fun _ _ => True) (renderHere n) (renderHere n) :=
  parallel_bind_settings fun _ _ _ => parallel_lift (endAlike_renderNode _ _ n hn)

theorem parallel_score (p : Program) {n : Node} (hn : NodeStyleBlind n) :
    Parallel Eq (score p n) (score p n) := by
  unfold score
  refine parallel_bind_same (keeps_lift _) (parallel_lift (agree_refl _)) fun x => ?_
  refine parallel_bind_settings fun a b hab => ?_
  dsimp only
  rw [hab.verbose_eq]
  split
  · refine parallel_bind (keeps_renderHere n) (keeps_renderHere n) (parallel_renderHere hn) ?_
    intro text text' _
    exact parallel_bind (keeps_write _ _) (keeps_write _ _) (parallel_write _ _ _) fun _ _ _ =>
      parallel_pure rfl
  · exact parallel_pure rfl

theorem parallel_scoreAll (p : Program) {fragments : List Node}
    (h : ∀ n ∈ fragments, NodeStyleBlind n) :
    Parallel Eq (scoreAll p fragments) (scoreAll p fragments) := by
  induction fragments with
  | nil => exact parallel_pure rfl
  | cons n rest ih =>
      obtain ⟨hn, hrest⟩ := List.forall_mem_cons.mp h
      refine parallel_bind_same (keeps_score p n) (parallel_score p hn) fun x => ?_
      exact parallel_bind_same (keeps_scoreAll p rest) (ih hrest) fun xs => parallel_pure rfl

section

variable {p : Program}
  (hp : ∀ style other, EndAlike (renderProgram style p) (renderProgram other p))

include hp

theorem parallel_renderProgramHere :
    Parallel (fun _ _ => True) (renderProgramHere p) (renderProgramHere p) :=
  parallel_bind_settings fun _ _ _ => parallel_lift (hp _ _)

theorem parallel_scored {fragments : List Node} (h : ∀ n ∈ fragments, NodeStyleBlind n) :
    Parallel Eq (scored fragments p) (scored fragments p) := by
  have hscores := parallel_scoreAll p h
  unfold scored
  refine parallel_bind_settings fun a b hab => ?_
  dsimp only
  rw [hab.verbose_eq]
  split
  · refine parallel_bind (keeps_renderProgramHere p) (keeps_renderProgramHere p)
      (parallel_renderProgramHere hp) ?_
    intro text text' _
    exact parallel_bind (keeps_write _ _) (keeps_write _ _) (parallel_write _ _ _) fun _ _ _ =>
      hscores
  · exact hscores

theorem parallel_meanUsefulness {fragments : List Node}
    (h : ∀ n ∈ fragments, NodeStyleBlind n) :
    Parallel Eq (meanUsefulness fragments p) (meanUsefulness fragments p) := by
  have hkeeps := keeps_scored fragments p
  rw [meanUsefulness_eq]
  split
  · exact parallel_pure rfl
  · have hscored := parallel_timed timerName hkeeps hkeeps (parallel_scored hp h)
    exact parallel_bind_same (keeps_timed _ hkeeps) hscored fun scores => parallel_pure rfl

end

/-- The text of a program in a style, if there is a program. -/
def textIn (style : NameStyle) : Option Program → Except Fault String
  | none => .ok ""
  | some p => renderProgram style p

/-- The style that a setting for simple names asks for. -/
def styleOf (flag : Bool) : NameStyle :=
  if flag then .simple else .qualified

theorem perform_programText (p : Option Program) (s : Session) :
    perform (programText p) s = (textIn (styleOf s.settings.useSimpleName) p, s) := by
  cases p <;> rfl

theorem perform_textWith (flag : Bool) (p : Option Program) (s : Session) :
    perform (withSimpleNames flag (programText p)) s = (textIn (styleOf flag) p, s) := by
  rw [perform_withSimpleNames (perform_programText p (naming flag s))]
  rfl

/-- A text that is made with the names switched is the same in both sessions, and it is that of the
program. -/
theorem parallel_textWith (flag : Bool) (p : Option Program) :
    Parallel (fun text text' => text = text' ∧ textIn (styleOf flag) p = .ok text)
      (withSimpleNames flag (programText p)) (withSimpleNames flag (programText p)) := by
  intro s t _
  rw [perform_textWith, perform_textWith]
  cases h : textIn (styleOf flag) p with
  | ok text => exact .ok ⟨rfl, rfl⟩
  | error fault => exact .error fault

theorem endAlike_of_shown {p : Program} {text text' : String}
    (h : renderProgram .qualified p = .ok text) (h' : renderProgram .simple p = .ok text')
    (style other : NameStyle) : EndAlike (renderProgram style p) (renderProgram other p) := by
  cases style <;> cases other <;> simp only [h, h'] <;> exact endAlike_ok _ _

theorem parallel_corpusFigures {corpus : Option Corpus} {p : Option Program}
    (hcorpus : ∀ c ∈ corpus, ∀ n ∈ c.all, NodeStyleBlind n) {text text' : String}
    (h : textIn .qualified p = .ok text) (h' : textIn .simple p = .ok text') :
    Parallel Eq (corpusFigures corpus p) (corpusFigures corpus p) := by
  cases corpus with
  | none => exact parallel_pure rfl
  | some c =>
      refine parallel_bind_settings fun a b hab => ?_
      have hmine : b.mineFragments = a.mineFragments := by rw [← hab]
      dsimp only
      rw [hmine]
      split
      · exact parallel_pure rfl
      · cases p with
        | none => exact parallel_pure rfl
        | some p =>
            have hmean := parallel_meanUsefulness (endAlike_of_shown h h') (hcorpus c rfl)
            exact parallel_bind_same (keeps_meanUsefulness c.all p) hmean fun mean =>
              parallel_pure rfl

theorem parallel_programWeight (p : Option Program) :
    Parallel Eq (programWeight p) (programWeight p) := by
  cases p with
  | none => exact parallel_pure rfl
  | some p => exact parallel_lift (agree_refl _)

section

variable (task : Task) (p : Option Program) (elapsed : Elapsed) (corpus : Option Corpus)
  (stats : SearchStats) (uncleaned : String) (uncleanedSize : Int)

theorem keeps_summarize :
    Keeps (summarize task p elapsed corpus stats uncleaned uncleanedSize) := by
  refine keeps_bind (keeps_withSimpleNames _ (keeps_programText p)) fun _ => ?_
  refine keeps_bind (keeps_withSimpleNames _ (keeps_programText p)) fun _ => ?_
  refine keeps_bind (keeps_corpusFigures corpus p) fun _ => ?_
  exact keeps_bind (keeps_programWeight p) fun _ => keeps_bind keeps_settings fun _ => keeps_pure _

theorem parallel_summarize (hcorpus : ∀ c ∈ corpus, ∀ n ∈ c.all, NodeStyleBlind n) :
    Parallel Eq (summarize task p elapsed corpus stats uncleaned uncleanedSize)
      (summarize task p elapsed corpus stats uncleaned uncleanedSize) := by
  have htexts (flag : Bool) := keeps_withSimpleNames flag (keeps_programText p)
  unfold summarize
  refine parallel_bind (htexts false) (htexts false) (parallel_textWith false p) ?_
  rintro qualified _ ⟨rfl, hqualified⟩
  refine parallel_bind (htexts true) (htexts true) (parallel_textWith true p) ?_
  rintro simple _ ⟨rfl, hsimple⟩
  have hfigures := parallel_corpusFigures hcorpus hqualified hsimple
  refine parallel_bind_same (keeps_corpusFigures corpus p) hfigures fun figures => ?_
  refine parallel_bind_same (keeps_programWeight p) (parallel_programWeight p) fun size => ?_
  refine parallel_bind_settings fun a b hab => parallel_pure ?_
  rw [← hab]

theorem texts_of_summarize {s : Session} {o : Outcome}
    (h : (perform (summarize task p elapsed corpus stats uncleaned uncleanedSize) s).1 = .ok o) :
    textIn .qualified p = .ok o.program ∧ textIn .simple p = .ok o.simpleProgram := by
  unfold summarize at h
  obtain ⟨qualified, t, hqualified, h⟩ := ok_of_perform_bind h
  obtain ⟨simple, u, hsimple, h⟩ := ok_of_perform_bind h
  obtain ⟨⟨remembered, fragments, mean⟩, v, -, h⟩ := ok_of_perform_bind h
  obtain ⟨size, w, -, h⟩ := ok_of_perform_bind h
  obtain ⟨a, w', -, h⟩ := ok_of_perform_bind h
  obtain rfl := Except.ok.inj h
  rw [perform_textWith] at hqualified hsimple
  exact ⟨congrArg Prod.fst hqualified, congrArg Prod.fst hsimple⟩

/-- A summary leaves all settings as they were, whether it succeeds or not. It does not depend on
the name mode as long as what is foreign in the fragments does not. The program is shown in full and
with simple names. -/
theorem summarize_modeIndependent :
    (∀ s, (perform (summarize task p elapsed corpus stats uncleaned uncleanedSize) s).2.settings =
      s.settings) ∧
    ((∀ c ∈ corpus, ∀ n ∈ c.all, NodeStyleBlind n) → ∀ s t, Alike s t →
      (perform (summarize task p elapsed corpus stats uncleaned uncleanedSize) s).1 =
        (perform (summarize task p elapsed corpus stats uncleaned uncleanedSize) t).1) ∧
    ∀ s o, (perform (summarize task p elapsed corpus stats uncleaned uncleanedSize) s).1 = .ok o →
      textIn .qualified p = .ok o.program ∧ textIn .simple p = .ok o.simpleProgram := by
  refine ⟨keeps_summarize task p elapsed corpus stats uncleaned uncleanedSize, ?_, ?_⟩
  · intro hcorpus s t hst
    exact (parallel_summarize task p elapsed corpus stats uncleaned uncleanedSize hcorpus s t hst).eq
  · intro s o h
    exact texts_of_summarize task p elapsed corpus stats uncleaned uncleanedSize h

end

def listRecord : Record where
  kind := .constructor
  declaringType := some "java.util.ArrayList"
  name := none
  returnType := "void"
  argTypes := []
  isStatic := false
  typeParams := []
  complete := rfl

def newList : Expr :=
  .use ((unregistered listRecord none).register TokenTable.empty).1 none []

/-- A program that returns a new list. -/
def listMaker : Program :=
  { Program.new "f" "java.util.List" OrderedMap.empty with result := some newList }

/-- The fragments of the program are scored one by one. -/
def listCorpus : Corpus :=
  (Corpus.empty.addExpressions [newList, .literal (.int 1) "int"]).1

/-- A fragment that has no weight makes every summary of a program fail. -/
def holedCorpus : Corpus :=
  (Corpus.empty.addExpressions [.foreign .hole]).1

/-- A session that traces each score. -/
def traced (simpleNames : Bool) : Session :=
  { Session.initial [] [] with
    settings := { Settings.initial with verbose := 3, useSimpleName := simpleNames } }

/-- The report on a program found for a task, scored with the fragments of a corpus. -/
def summaryWith (c : Corpus) : SessionM Outcome :=
  summarize ⟨"lists", none, 0, 0, [], false⟩ (some listMaker) (.whole 0) (some c)
    SearchStats.zero "" 0

theorem ok_of_toBool {x : Except Fault α} (h : x.toBool = true) : ∃ a, x = .ok a := by
  cases x with
  | error fault => cases h
  | ok a => exact ⟨a, rfl⟩

theorem error_of_toBool {x : Except Fault α} (h : x.toBool = false) :
    ∃ fault, x = .error fault := by
  cases x with
  | error fault => exact ⟨fault, rfl⟩
  | ok a => cases h

theorem listCorpus_blind : ∀ c ∈ some listCorpus, ∀ n ∈ c.all, NodeStyleBlind n := by
  have hknown : ∀ n ∈ listCorpus.all, nodeKnown n = true := by decide +kernel
  rintro _ ⟨⟩ n hn
  exact styleBlind_of_nodeKnown n (hknown n hn)

theorem holedCorpus_blind : ∀ c ∈ some holedCorpus, ∀ n ∈ c.all, NodeStyleBlind n := by
  have hall : holedCorpus.all = [.expr (.foreign .hole)] := rfl
  rintro _ ⟨⟩
  rw [hall, List.forall_mem_singleton]
  exact styleBlind_hole

theorem summarize_modeIndependent_list :
    (∀ c ∈ some listCorpus, ∀ n ∈ c.all, NodeStyleBlind n) ∧
      (∀ c ∈ some holedCorpus, ∀ n ∈ c.all, NodeStyleBlind n) ∧
      Alike (traced false) (traced true) ∧
      (∃ o, (perform (summaryWith listCorpus) (traced false)).1 = .ok o ∧
        (perform (summaryWith listCorpus) (traced true)).1 = .ok o ∧
        o.program =
          "public static java.util.List f() \x7b\n    return new java.util.ArrayList();\n\x7d\n" ∧
        o.simpleProgram = "public static List f() \x7b\n    return new ArrayList();\n\x7d\n") ∧
      ∃ fault, (perform (summaryWith holedCorpus) (traced false)).1 = .error fault ∧
        (perform (summaryWith holedCorpus) (traced true)).1 = .error fault := by
  have halike : Alike (traced false) (traced true) := ⟨rfl, rfl⟩
  have hmode (c : Corpus) := summarize_modeIndependent ⟨"lists", none, 0, 0, [], false⟩
    (some listMaker) (.whole 0) (some c) SearchStats.zero "" 0
  refine ⟨listCorpus_blind, holedCorpus_blind, halike, ?_, ?_⟩
  · obtain ⟨-, hindependent, htexts⟩ := hmode listCorpus
    have hsame := hindependent listCorpus_blind (traced false) (traced true) halike
    have hsuccess : (perform (summaryWith listCorpus) (traced false)).1.toBool = true := by
      decide +kernel
    obtain ⟨o, ho⟩ := ok_of_toBool hsuccess
    obtain ⟨hqualified, hsimple⟩ := htexts (traced false) o ho
    refine ⟨o, ho, hsame.symm.trans ho, ?_, ?_⟩
    · apply Except.ok.inj
      rw [← hqualified]
      decide +kernel
    · apply Except.ok.inj
      rw [← hsimple]
      decide +kernel
  · obtain ⟨-, hindependent, -⟩ := hmode holedCorpus
    have hsame := hindependent holedCorpus_blind (traced false) (traced true) halike
    have hfailure : (perform (summaryWith holedCorpus) (traced false)).1.toBool = false := by
      decide +kernel
    obtain ⟨fault, hfault⟩ := error_of_toBool hfailure
    exact ⟨fault, hfault, hsame.symm.trans hfault⟩

end FragmentSynthesis.Proofs.NameModes
