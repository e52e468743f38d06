import FragmentSynthesis.Sessions

namespace FragmentSynthesis.Proofs.SessionSteps

open FragmentSynthesis.Configuration
open FragmentSynthesis.Faults
open FragmentSynthesis.FieldReading
open FragmentSynthesis.Sessions
open FragmentSynthesis.Stopwatches

/-- What a computation answers in a session, and the session that it leaves. -/
def perform {α : Type} (x : SessionM α) (s : Session) : Except Fault α × Session :=
  x.run.run s

/-- The answer of a step that may end in a fault. -/
def answered : Option Fault → Except Fault Unit
  | none => .ok ()
  | some fault => .error fault

/-- The session with simple names on or off. -/
def naming (flag : Bool) (s : Session) : Session :=
  { s with settings := { s.settings with useSimpleName := flag } }

/-- The session after a warning was logged, if there is one. -/
def noted (warning : Option String) (s : Session) : Session :=
  { s with log := (warning.map (LogEntry.mk .warning)).toList ++ s.log }

section

variable {α β : Type} {x : SessionM α} {s t : Session}

theorem perform_get (s : Session) : perform get s = (.ok s, s) := rfl

theorem perform_set (s t : Session) : perform (set t) s = (.ok (), t) := rfl

theorem perform_modify (f : Session → Session) (s : Session) :
    perform (modify f) s = (.ok (), f s) := rfl

theorem perform_settings (s : Session) : perform settings s = (.ok s.settings, s) := rfl

theorem perform_bind_of_ok {a : α} (h : perform x s = (.ok a, t)) (f : α → SessionM β) :
    perform (x >>= f) s = perform (f a) t := by
  simp only [perform, ExceptT.run_bind, StateT.run_bind] at h ⊢
  rw [h]
  rfl

theorem perform_bind_of_error {fault : Fault} (h : perform x s = (.error fault, t))
    (f : α → SessionM β) : perform (x >>= f) s = (.error fault, t) := by
  simp only [perform, ExceptT.run_bind, StateT.run_bind] at h ⊢
  rw [h]
  rfl

theorem ok_of_perform_bind {f : α → SessionM β} {b : β} (h : (perform (x >>= f) s).1 = .ok b) :
    ∃ a t, perform x s = (.ok a, t) ∧ (perform (f a) t).1 = .ok b := by
  cases hx : perform x s with
  | mk r t =>
      cases r with
      | error fault =>
          rw [perform_bind_of_error hx] at h
          cases h
      | ok a =>
          rw [perform_bind_of_ok hx] at h
          exact ⟨a, t, rfl, h⟩

theorem perform_raiseIfAny (fault : Option Fault) (s : Session) :
    perform (raiseIfAny fault) s = (answered fault, s) := by
  cases fault <;> rfl

theorem perform_reified {r : Except Fault α} (h : perform x s = (r, t)) :
    perform (ExceptT.lift x.run) s = (.ok r, t) := by
  simp only [perform, ExceptT.run_lift, StateT.run_map] at h ⊢
  rw [h]
  rfl

theorem perform_thenAlways {final : SessionM Unit} {r : Except Fault α} {u : Session}
    (h : perform x s = (r, t)) (hfinal : perform final t = (.ok (), u)) :
    perform (thenAlways x final) s = (r, u) := by
  rw [thenAlways, perform_bind_of_ok (perform_reified h), perform_bind_of_ok hfinal]
  cases r <;> rfl

/-- Whatever a computation does under a name style, and however it ends, the style is as before
afterwards. -/
theorem perform_withSimpleNames {flag : Bool} {r : Except Fault α}
    (h : perform x (naming flag s) = (r, t)) :
    perform (withSimpleNames flag x) s = (r, naming s.settings.useSimpleName t) := by
  have hset : perform (setSimpleName flag) s = (.ok (), naming flag s) := rfl
  rw [withSimpleNames, perform_bind_of_ok (perform_settings s)]
  exact (perform_bind_of_ok hset _).trans (perform_thenAlways h rfl)

variable (operation : Stopwatch → Clock → Tick)

theorem perform_tick_of_off (w : Stopwatch) (h : s.settings.logTiming = false) :
    perform (tick w operation) s = (.ok (w, none), s) := by
  rw [tick, perform_bind_of_ok (perform_get s), h]
  rfl

theorem perform_tick (w : Stopwatch) (h : s.settings.logTiming = true) :
    perform (tick w operation) s =
      (.ok ((operation w s.clock).watch, (operation w s.clock).fault),
        noted (operation w s.clock).warning { s with clock := (operation w s.clock).clock }) := by
  rw [tick, perform_bind_of_ok (perform_get s), if_pos h]
  refine (perform_bind_of_ok (perform_set s _) _).trans ?_
  cases (operation w s.clock).warning <;> rfl

theorem perform_tickGlobal_of_off (h : s.settings.logTiming = false) :
    perform (tickGlobal operation) s = (.ok (), s) := by
  rw [tickGlobal, perform_bind_of_ok (perform_get s),
    perform_bind_of_ok (perform_tick_of_off operation s.stopwatch h)]
  rfl

theorem perform_tickGlobal (h : s.settings.logTiming = true) :
    perform (tickGlobal operation) s =
      (answered (operation s.stopwatch s.clock).fault,
        noted (operation s.stopwatch s.clock).warning
          { s with
            clock := (operation s.stopwatch s.clock).clock
            stopwatch := (operation s.stopwatch s.clock).watch }) := by
  rw [tickGlobal, perform_bind_of_ok (perform_get s),
    perform_bind_of_ok (perform_tick operation s.stopwatch h)]
  exact (perform_bind_of_ok (perform_modify _ _) _).trans (perform_raiseIfAny _ _)

theorem perform_changeSettings (change : Settings → Settings × Option Fault) (s : Session) :
    perform (changeSettings change) s =
      (answered (change s.settings).2, { s with settings := (change s.settings).1 }) := by
  rw [changeSettings, perform_bind_of_ok (perform_get s)]
  exact (perform_bind_of_ok (perform_set s _) _).trans (perform_raiseIfAny _ _)

end

end FragmentSynthesis.Proofs.SessionSteps
