import FragmentSynthesis.Proofs.SettingsChanges
import FragmentSynthesis.Proofs.TimerEvents

/-!
Timers over whole runs. Timers are started, stopped and reset in any order, and timing is switched
on and off between. After any such run the stopwatch holds what the history of the run adds up to,
the clock has given exactly the readings of that history, and the warnings are those of a start of
a timer that runs and of a stop of one that does not.
-/

namespace FragmentSynthesis.Proofs.TimerHistories

open FragmentSynthesis.Configuration
open FragmentSynthesis.Faults
open FragmentSynthesis.NameSets
open FragmentSynthesis.OrderedMaps
open FragmentSynthesis.Proofs.SessionSteps
open FragmentSynthesis.Proofs.SettingsChanges
open FragmentSynthesis.Proofs.TimerEvents
open FragmentSynthesis.Sessions
open FragmentSynthesis.Stopwatches

/-- What is done to the timers of a session. -/
inductive Command
  | start (name : String)
  | stop (name : String)
  | reset
  | switch (on : Bool)

/-- What a command does in a session. -/
def Command.action : Command → SessionM Unit
  | .start name => startTimer name
  | .stop name => stopTimer name
  | .reset => modify fun s => { s with stopwatch := s.stopwatch.reset }
  | .switch on => configure [(Setting.logTiming.name, .bool on)]

/-- The session after a command. -/
def after (s : Session) (c : Command) : Session :=
  (perform c.action s).2

/-- What a command does in a session, as its answer shows it. -/
def eventOf (s : Session) (c : Command) : Event :=
  let first := s.clock.read.1
  let second := s.clock.read.2.read.1
  match c with
  | .start name => if s.settings.logTiming then .started name first second else .idle
  | .stop name =>
      if s.settings.logTiming then
        match (perform (stopTimer name) s).1 with
        | .ok _ => .stopped name first second
        | .error _ => .refused name first
      else .idle
  | .reset => .reset
  | .switch _ => .idle

/-- The session after some commands, and their history, latest first. -/
def run (s : Session) (commands : List Command) : Session × List Event :=
  commands.foldl (fun r c => (after r.1 c, eventOf r.1 c :: r.2)) (s, [])

theorem run_induction {motive : Session × List Event → Prop} (s : Session) (hstart : motive (s, []))
    (hstep : ∀ r c, motive r → motive (after r.1 c, eventOf r.1 c :: r.2))
    (commands : List Command) : motive (run s commands) :=
  List.foldlRecOn commands _ hstart fun r hr c _ => hstep r c hr

section

variable {s : Session} (name : String)

theorem perform_startTimer_of_off (h : s.settings.logTiming = false) :
    perform (startTimer name) s = (.ok (), s) :=
  perform_tickGlobal_of_off _ h

theorem perform_stopTimer_of_off (h : s.settings.logTiming = false) :
    perform (stopTimer name) s = (.ok (), s) :=
  perform_tickGlobal_of_off _ h

theorem perform_startTimer (h : s.settings.logTiming = true) :
    perform (startTimer name) s =
      (.ok (), noted (s.stopwatch.start s.clock name).warning
        { s with
          clock := s.clock.read.2.read.2
          stopwatch := (s.stopwatch.start s.clock name).watch }) :=
  perform_tickGlobal _ h

theorem perform_stopTimer_of_none (h : s.settings.logTiming = true)
    (hstarted : s.stopwatch.started.get? name = none) :
    perform (stopTimer name) s =
      (.error (.timerNotStarted name), { s with clock := s.clock.read.2 }) := by
  rw [stopTimer, perform_tickGlobal _ h, Stopwatch.stop]
  simp only [hstarted]
  rfl

theorem perform_stopTimer_of_some (h : s.settings.logTiming = true) {since : Int}
    (hstarted : s.stopwatch.started.get? name = some since) :
    perform (stopTimer name) s =
      (.ok (), noted (s.stopwatch.stop s.clock name).warning
        { s with
          clock := s.clock.read.2.read.2
          stopwatch := (s.stopwatch.stop s.clock name).watch }) := by
  rw [stopTimer, perform_tickGlobal _ h, Stopwatch.stop]
  simp only [hstarted]
  rfl

theorem perform_reset (s : Session) :
    perform Command.reset.action s = (.ok (), { s with stopwatch := s.stopwatch.reset }) :=
  rfl

theorem perform_switch (on : Bool) (s : Session) :
    perform (Command.switch on).action s =
      (.ok (), { s with settings := { s.settings with logTiming := on } }) := by
  have hconfigure : s.settings.configure readField [(Setting.logTiming.name, .bool on)] =
      ({ s.settings with logTiming := on }, none) := by
    have hvalid : readField .logTiming (.bool on) = .ok on := rfl
    rw [Settings.configure, configureOne_of_valid s.settings hvalid]
    rfl
  rw [Command.action, configure, configureWith, perform_changeSettings, hconfigure]
  rfl

end

/-- The readings that a clock gives, one after the other, and the clock after them. -/
def Gives : Clock → List Int → Clock → Prop
  | c, [], d => d = c
  | c, r :: rest, d => c.read.1 = r ∧ Gives c.read.2 rest d

theorem gives_append {c d e : Clock} {xs ys : List Int} (hxs : Gives c xs d) (hys : Gives d ys e) :
    Gives c (xs ++ ys) e := by
  induction xs generalizing c with
  | nil =>
      obtain rfl : d = c := hxs
      exact hys
  | cons r rest ih => exact ⟨hxs.1, ih hxs.2⟩

/-- A stopwatch holds what a history adds up to. -/
structure Holds (careful : Bool) (past : List Event) (w : Stopwatch) : Prop where
  careful_eq : w.careful = careful
  started (name : String) : w.started.get? name = latestStart? name (sinceReset past)
  totals (name : String) : w.totals.get? name = sum? (spans name (sinceReset past))
  overhead_eq : w.overhead = overhead past
  running (hcareful : careful = true) (name : String) :
    name ∈ w.running.names ↔ IsRunning name past

section

variable {careful : Bool} {past : List Event} {w : Stopwatch} {clock : Clock} {name : String}

theorem holds_new (careful : Bool) : Holds careful [] (Stopwatch.new careful) where
  careful_eq := rfl
  started _ := rfl
  totals _ := rfl
  overhead_eq := rfl
  running _ _ := iff_of_false List.not_mem_nil nofun

theorem Holds.start (h : Holds careful past w) :
    Holds careful (.started name clock.read.1 clock.read.2.read.1 :: past)
      (w.start clock name).watch where
  careful_eq := h.careful_eq
  started other := by
    change (w.started.insert name clock.read.1).get? other = _
    rw [OrderedMap.get?_insert, h.started, sinceReset_cons (by rintro ⟨⟩), latestStart?_cons,
      Event.startOf?]
    by_cases hname : name = other <;> simp [hname]
  totals other := by
    rw [sinceReset_cons (by rintro ⟨⟩), spans_started]
    exact h.totals other
  overhead_eq := by
    rw [overhead_cons (by rintro ⟨⟩), ← h.overhead_eq]
    rfl
  running hcareful other := by
    have hrunning : (w.start clock name).watch.running = w.running.insert name :=
      if_pos (h.careful_eq.trans hcareful)
    rw [hrunning, NameSet.mem_insert, isRunning_started, h.running hcareful, or_comm,
      eq_comm (a := other)]

theorem Holds.stop (h : Holds careful past w) {since : Int}
    (hstarted : w.started.get? name = some since) :
    Holds careful (.stopped name clock.read.1 clock.read.2.read.1 :: past)
      (w.stop clock name).watch := by
  have hwatch : (w.stop clock name).watch = { w with
      totals := w.totals.insert name ((w.totals.get? name).getD 0 + clock.read.1 - since)
      running := if w.careful then w.running.erase name else w.running
      overhead := w.overhead + (clock.read.2.read.1 - clock.read.1) } := by
    rw [Stopwatch.stop]
    simp only [hstarted]
  rw [hwatch]
  exact {
    careful_eq := h.careful_eq
    started := fun other => by
      rw [sinceReset_cons (by rintro ⟨⟩), latestStart?_cons]
      exact h.started other
    totals := fun other => by
      rw [OrderedMap.get?_insert, sinceReset_cons (by rintro ⟨⟩), spans_cons, span?, h.totals name]
      by_cases hname : name = other
      · subst hname
        rw [if_pos rfl, if_pos rfl, ← h.started name, hstarted]
        exact (congrArg some (Int.add_sub_assoc ..)).trans (sum?_cons _ _).symm
      · rw [if_neg hname, if_neg hname]
        exact h.totals other
    overhead_eq := by
      rw [overhead_cons (by rintro ⟨⟩), ← h.overhead_eq]
      rfl
    running := fun hcareful other => by
      rw [if_pos (h.careful_eq.trans hcareful), NameSet.mem_erase, isRunning_stopped,
        h.running hcareful, ne_comm] }

theorem Holds.reset (h : Holds careful past w) : Holds careful (.reset :: past) w.reset := by
  have hnew := holds_new careful
  rw [Stopwatch.reset, h.careful_eq]
  exact {
    careful_eq := rfl
    started := fun name => by
      rw [sinceReset_reset]
      exact hnew.started name
    totals := fun name => by
      rw [sinceReset_reset]
      exact hnew.totals name
    overhead_eq := by
      rw [overhead, sinceReset_reset]
      rfl
    running := fun hcareful name =>
      iff_of_false List.not_mem_nil not_isRunning_reset }

theorem Holds.quiet (h : Holds careful past w) {e : Event} (he : e ≠ .reset)
    (hmark : ∀ name, e.mark? name = none) (hcost : e.cost = 0) : Holds careful (e :: past) w where
  careful_eq := h.careful_eq
  started name := by
    rw [sinceReset_cons he, (quiet_of_mark?_eq_none _ (hmark name)).2.1]
    exact h.started name
  totals name := by
    rw [sinceReset_cons he, (quiet_of_mark?_eq_none _ (hmark name)).2.2]
    exact h.totals name
  overhead_eq := by
    rw [overhead_cons he, hcost, h.overhead_eq, Int.add_zero]
  running hcareful name := by
    rw [IsRunning, sinceReset_cons he, (quiet_of_mark?_eq_none _ (hmark name)).1]
    exact h.running hcareful name

/-- The warnings of a careful stopwatch. Any other gives none. -/
def warned (careful : Bool) (past : List Event) : List LogEntry :=
  if careful then warnings past else []

theorem warned_cons (e : Event) (past : List Event) :
    warned careful (e :: past) =
      (if careful then (warning? (e :: past)).toList else []) ++ warned careful past := by
  cases careful with
  | true => exact warnings_cons
  | false => rfl

theorem contains_eq (h : Holds true past w) (name : String) :
    w.running.contains name = decide (IsRunning name past) :=
  decide_eq_decide.mpr (h.running rfl name)

theorem warned_start (h : Holds careful past w) :
    warned careful (.started name clock.read.1 clock.read.2.read.1 :: past) =
      ((w.start clock name).warning.map (LogEntry.mk .warning)).toList ++ warned careful past := by
  rw [warned_cons]
  congr 1
  rw [Stopwatch.start, h.careful_eq]
  cases careful with
  | false => rfl
  | true =>
      rw [contains_eq h, warning?]
      by_cases hrunning : IsRunning name past <;> simp [hrunning]

theorem warned_stop (h : Holds careful past w) {since : Int}
    (hstarted : w.started.get? name = some since) :
    warned careful (.stopped name clock.read.1 clock.read.2.read.1 :: past) =
      ((w.stop clock name).warning.map (LogEntry.mk .warning)).toList ++ warned careful past := by
  rw [warned_cons]
  congr 1
  rw [Stopwatch.stop, h.careful_eq]
  simp only [hstarted]
  cases careful with
  | false => rfl
  | true =>
      rw [contains_eq h, warning?]
      by_cases hrunning : IsRunning name past <;> simp [hrunning]

theorem warned_quiet {e : Event} (hmark : ∀ name, e.mark? name = none) :
    warned careful (e :: past) = warned careful past := by
  have hnone : warning? (e :: past) = none := by
    cases e with
    | started name first second => exact nomatch (if_pos rfl).symm.trans (hmark name)
    | stopped name first second => exact nomatch (if_pos rfl).symm.trans (hmark name)
    | _ => rfl
  rw [warned_cons, hnone]
  cases careful <;> rfl

end

/-- What a session keeps of the commands since a session at the start. -/
structure Kept (careful : Bool) (start : Session) (past : List Event) (s : Session) : Prop where
  watch : Holds careful past s.stopwatch
  readings : Gives start.clock (timeline past) s.clock
  log : s.log = warned careful past ++ start.log

section

variable {careful : Bool} {start s : Session} {past : List Event}

theorem kept_refl (h : s.stopwatch = Stopwatch.new careful) : Kept careful s [] s where
  watch := h ▸ holds_new careful
  readings := rfl
  log := by cases careful <;> rfl

theorem Kept.ticked (h : Kept careful start past s) {e : Event} {t : Tick}
    (hwatch : Holds careful (e :: past) t.watch) (hclock : Gives s.clock e.readings t.clock)
    (hwarned : warned careful (e :: past) =
      (t.warning.map (LogEntry.mk .warning)).toList ++ warned careful past) :
    Kept careful start (e :: past)
      (noted t.warning { s with clock := t.clock, stopwatch := t.watch }) where
  watch := hwatch
  readings := by
    rw [timeline_cons]
    exact gives_append h.readings hclock
  log := by
    rw [hwarned, List.append_assoc, ← h.log]
    rfl

theorem Kept.quiet (h : Kept careful start past s) {e : Event} {t : Session} (he : e ≠ .reset)
    (hmark : ∀ name, e.mark? name = none) (hcost : e.cost = 0)
    (hwatch : t.stopwatch = s.stopwatch) (hclock : Gives s.clock e.readings t.clock)
    (hlog : t.log = s.log) : Kept careful start (e :: past) t where
  watch := by
    rw [hwatch]
    exact h.watch.quiet he hmark hcost
  readings := by
    rw [timeline_cons]
    exact gives_append h.readings hclock
  log := by rw [hlog, warned_quiet hmark, h.log]

theorem Kept.idle (h : Kept careful start past s) {t : Session}
    (hwatch : t.stopwatch = s.stopwatch) (hclock : t.clock = s.clock) (hlog : t.log = s.log) :
    Kept careful start (.idle :: past) t :=
  h.quiet (by rintro ⟨⟩) (fun _ => rfl) rfl hwatch hclock hlog

theorem Kept.step (h : Kept careful start past s) (c : Command) :
    Kept careful start (eventOf s c :: past) (after s c) := by
  cases c with
  | start name =>
      rw [eventOf, after, Command.action]
      cases htiming : s.settings.logTiming with
      | false =>
          rw [perform_startTimer_of_off name htiming]
          exact h.idle rfl rfl rfl
      | true =>
          rw [perform_startTimer name htiming]
          exact h.ticked h.watch.start ⟨rfl, rfl, rfl⟩ (warned_start h.watch)
  | stop name =>
      rw [eventOf, after, Command.action]
      cases htiming : s.settings.logTiming with
      | false =>
          rw [perform_stopTimer_of_off name htiming]
          exact h.idle rfl rfl rfl
      | true =>
          cases hstarted : s.stopwatch.started.get? name with
          | none =>
              -- A stop that is refused reads the clock once and changes nothing.
              rw [perform_stopTimer_of_none name htiming hstarted]
              exact h.quiet (by rintro ⟨⟩) (fun _ => rfl) rfl rfl ⟨rfl, rfl⟩ rfl
          | some since =>
              have hclock : (s.stopwatch.stop s.clock name).clock = s.clock.read.2.read.2 := by
                rw [Stopwatch.stop]
                simp only [hstarted]
              rw [perform_stopTimer_of_some name htiming hstarted, ← hclock]
              exact h.ticked (h.watch.stop hstarted) ⟨rfl, rfl, hclock⟩
                (warned_stop h.watch hstarted)
  | reset =>
      rw [eventOf, after, perform_reset]
      exact {
        watch := h.watch.reset
        readings := by
          rw [timeline_cons]
          exact gives_append h.readings rfl
        log := by rw [warned_quiet fun _ => rfl, h.log] }
  | switch on =>
      rw [eventOf, after, perform_switch]
      exact h.idle rfl rfl rfl

theorem run_kept (h : s.stopwatch = Stopwatch.new careful) (commands : List Command) :
    Kept careful s (run s commands).2 (run s commands).1 :=
  run_induction (motive := fun r => Kept careful s r.2 r.1) s (kept_refl h)
    (fun _ c hr => hr.step c) commands

end

/-- What is true of the timers of a session after the commands since a session at the start, given
by their history. -/
structure Accounted (careful : Bool) (start : Session) (past : List Event) (s : Session) :
    Prop where
  untimed (htiming : s.settings.logTiming = false) (name : String) :
    perform (startTimer name) s = (.ok (), s) ∧ perform (stopTimer name) s = (.ok (), s)
  startable (name : String) : (perform (startTimer name) s).1 = .ok ()
  /-- A stop is refused exactly if its timer was not started since the last reset, and takes no
  more than one reading then. -/
  stoppable (htiming : s.settings.logTiming = true) (name : String) :
    ((∃ first second, .started name first second ∈ sinceReset past) ∧
        (perform (stopTimer name) s).1 = .ok ()) ∨
      ((∀ first second, .started name first second ∉ sinceReset past) ∧
        perform (stopTimer name) s =
          (.error (.timerNotStarted name), { s with clock := s.clock.read.2 }))
  readings : Gives start.clock (timeline past) s.clock
  total_eq (name : String) :
    s.stopwatch.totals.get? name = sum? (spans name (sinceReset past))
  overhead_eq : s.stopwatch.overhead = overhead past
  nonneg (hordered : Ordered past) :
    (∀ name total, s.stopwatch.totals.get? name = some total → 0 ≤ total) ∧
      0 ≤ s.stopwatch.overhead
  bounded (hordered : Ordered past) (name : String) (halternates : Alternates name past)
    (total : Int) (htotal : s.stopwatch.totals.get? name = some total) :
    ∃ first last, (timeline past).head? = some first ∧ (timeline past).getLast? = some last ∧
      total ≤ last - first
  log : s.log = warned careful past ++ start.log

section

variable {careful : Bool} {start s : Session} {past : List Event}

theorem Kept.stoppable (h : Kept careful start past s) (htiming : s.settings.logTiming = true)
    (name : String) :
    ((∃ first second, .started name first second ∈ sinceReset past) ∧
        (perform (stopTimer name) s).1 = .ok ()) ∨
      ((∀ first second, .started name first second ∉ sinceReset past) ∧
        perform (stopTimer name) s =
          (.error (.timerNotStarted name), { s with clock := s.clock.read.2 })) := by
  cases hstarted : s.stopwatch.started.get? name with
  | none =>
      refine .inr ⟨?_, perform_stopTimer_of_none name htiming hstarted⟩
      rw [h.watch.started] at hstarted
      exact latestStart?_eq_none_iff.mp hstarted
  | some since =>
      refine .inl ⟨?_, by rw [perform_stopTimer_of_some name htiming hstarted]⟩
      by_contra hnone
      rw [h.watch.started, latestStart?_eq_none_iff.mpr fun first second hmem =>
        hnone ⟨first, second, hmem⟩] at hstarted
      cases hstarted

theorem Kept.nonneg (h : Kept careful start past s) (hordered : Ordered past) :
    (∀ name total, s.stopwatch.totals.get? name = some total → 0 ≤ total) ∧
      0 ≤ s.stopwatch.overhead := by
  constructor
  · intro name total htotal
    rw [h.watch.totals] at htotal
    rw [sum?_eq_some htotal]
    exact List.sum_nonneg (spans_nonneg hordered.sinceReset)
  · rw [h.watch.overhead_eq]
    exact overhead_nonneg hordered

theorem startable (s : Session) (name : String) : (perform (startTimer name) s).1 = .ok () := by
  cases htiming : s.settings.logTiming with
  | false => rw [perform_startTimer_of_off name htiming]
  | true => rw [perform_startTimer name htiming]

theorem Kept.accounted (h : Kept careful start past s) : Accounted careful start past s where
  untimed htiming name :=
    ⟨perform_startTimer_of_off name htiming, perform_stopTimer_of_off name htiming⟩
  startable := startable s
  stoppable := h.stoppable
  readings := h.readings
  total_eq := h.watch.totals
  overhead_eq := h.watch.overhead_eq
  nonneg := h.nonneg
  bounded hordered name halternates _ htotal :=
    total_le hordered halternates ((h.watch.totals name).symm.trans htotal)
  log := h.log

/-- Whatever is done with timers from a new stopwatch on, at every point the session is as the
history up to there tells. -/
theorem run_accounted (h : s.stopwatch = Stopwatch.new careful) (commands : List Command) :
    Accounted careful s (run s commands).2 (run s commands).1 :=
  (run_kept h commands).accounted

end

/-- A new session with a careful stopwatch. -/
def carefulSession (readings : List Int) : Session :=
  { Session.initial readings [] with stopwatch := Stopwatch.new true }

/-- A timer runs twice, and the second time timing is off for a while. -/
def twoSpans : Session × List Event :=
  run (carefulSession [0, 5, 20, 22, 30, 31, 50, 51])
    [.switch true, .start "A", .stop "A", .start "A", .switch false, .stop "A", .switch true,
      .stop "A"]

theorem twoSpans_history : twoSpans.2 =
    [.stopped "A" 50 51, .idle, .idle, .idle, .started "A" 30 31, .stopped "A" 20 22,
      .started "A" 0 5, .idle] := by
  decide +kernel

theorem run_accounted_twoSpans :
    (carefulSession [0, 5, 20, 22, 30, 31, 50, 51]).stopwatch = Stopwatch.new true ∧
      Ordered twoSpans.2 ∧ Alternates "A" twoSpans.2 ∧
      twoSpans.1.stopwatch.totals.get? "A" = some 40 ∧
      ∃ first last, (timeline twoSpans.2).head? = some first ∧
        (timeline twoSpans.2).getLast? = some last ∧ 40 ≤ last - first := by
  have haccounted : Accounted true (carefulSession [0, 5, 20, 22, 30, 31, 50, 51]) twoSpans.2
      twoSpans.1 := run_accounted rfl _
  have hordered : Ordered twoSpans.2 := by
    rw [twoSpans_history, Ordered]
    decide
  have halternates : Alternates "A" twoSpans.2 := by
    rw [twoSpans_history, Alternates]
    decide
  have htotal : twoSpans.1.stopwatch.totals.get? "A" = some 40 := by
    rw [haccounted.total_eq, twoSpans_history]
    decide
  exact ⟨rfl, hordered, halternates, htotal, haccounted.bounded hordered "A" halternates 40 htotal⟩

/-- After a reset the time that timing took before it no longer counts, and a stop warns of
nothing, though its timer does not run, as it is refused. -/
theorem stop_after_reset_unwarned :
    let r := run (carefulSession [0, 5, 10]) [.switch true, .start "A", .reset]
    r.1.stopwatch.overhead ≠ (r.2.map Event.cost).sum ∧
      r.1.settings.logTiming = true ∧ ¬ IsRunning "A" r.2 ∧
      (perform (stopTimer "A") r.1).1 = .error (.timerNotStarted "A") ∧
      (perform (stopTimer "A") r.1).2.log = r.1.log := by
  intro r
  have hoverhead : r.1.stopwatch.overhead = 0 := rfl
  have hcosts : (r.2.map Event.cost).sum = 5 := rfl
  refine ⟨?_, rfl, not_isRunning_reset, rfl, rfl⟩
  rw [hoverhead, hcosts]
  decide

end FragmentSynthesis.Proofs.TimerHistories
