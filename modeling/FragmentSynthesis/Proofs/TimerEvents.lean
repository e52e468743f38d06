import FragmentSynthesis.Sessions
import Mathlib.Algebra.Order.BigOperators.Group.List
import Mathlib.Algebra.Order.Group.Int
import Mathlib.Algebra.Ring.Int.Defs
import Mathlib.Data.List.Chain
import Mathlib.Data.List.Infix

namespace FragmentSynthesis.Proofs.TimerEvents

open FragmentSynthesis.Sessions

/-- What was done to a timer while timing was on, with the readings of the clock that it took. A
stop that is refused takes one. Whatever takes none is a reset or idle. -/
inductive Event
  | started (name : String) (first second : Int)
  | stopped (name : String) (first second : Int)
  | refused (name : String) (first : Int)
  | reset
  | idle
  deriving DecidableEq

/-- The times that an event read, the first one first. -/
def Event.readings : Event → List Int
  | .started _ first second => [first, second]
  | .stopped _ first second => [first, second]
  | .refused _ first => [first]
  | .reset => []
  | .idle => []

/-- The time that timing itself takes. -/
def Event.cost : Event → Int
  | .started _ first second => second - first
  | .stopped _ first second => second - first
  | _ => 0

def Event.startOf? (name : String) : Event → Option Int
  | .started other first _ => if other = name then some first else none
  | _ => none

/-- Whether an event starts a timer, if it starts or stops it. -/
def Event.mark? (name : String) : Event → Option Bool
  | .started other _ _ => if other = name then some true else none
  | .stopped other _ _ => if other = name then some false else none
  | _ => none

/-- The latest events, back to the last reset. -/
def sinceReset (past : List Event) : List Event :=
  past.takeWhile (· ≠ .reset)

/-- The first reading of the latest start of a timer. -/
def latestStart? (name : String) (past : List Event) : Option Int :=
  past.findSome? (Event.startOf? name)

/-- The starts and stops of one timer. -/
def marks (name : String) (past : List Event) : List Bool :=
  past.filterMap (Event.mark? name)

/-- The time from the latest start of a timer to its stop, if it was stopped last. -/
def span? (name : String) : List Event → Option Int
  | .stopped other first _ :: past =>
      if other = name then (latestStart? name past).map (first - ·) else none
  | _ => none

/-- The spans that a timer has measured, one for each stop. -/
def spans (name : String) (past : List Event) : List Int :=
  past.tails.filterMap (span? name)

/-- The sum of some numbers, if there are any. -/
def sum? : List Int → Option Int
  | [] => none
  | xs => some xs.sum

/-- The time that timing took since the last reset. -/
def overhead (past : List Event) : Int :=
  ((sinceReset past).map Event.cost).sum

/-- A timer runs if it was started since the last reset and not stopped since then. -/
def IsRunning (name : String) (past : List Event) : Prop :=
  (marks name (sinceReset past)).head? = some true

instance (name : String) (past : List Event) : Decidable (IsRunning name past) :=
  inferInstanceAs (Decidable (_ = _))

/-- Since the last reset, starts and stops of a timer take turns. -/
def Alternates (name : String) (past : List Event) : Prop :=
  (marks name (sinceReset past)).IsChain (· ≠ ·)

/-- What is warned of: the start of a timer that runs and the stop of one that does not. -/
def warning? : List Event → Option LogEntry
  | .started name _ _ :: past =>
      if IsRunning name past then
        some ⟨.warning, "Trying to start timer, but already started: " ++ name⟩
      else none
  | .stopped name _ _ :: past =>
      if IsRunning name past then none
      else some ⟨.warning, "Trying to stop timer, but isn't running: " ++ name⟩
  | _ => none

/-- All warnings, latest first. -/
def warnings (past : List Event) : List LogEntry :=
  past.tails.filterMap warning?

/-- All readings, in the order in which they were taken. -/
def timeline (past : List Event) : List Int :=
  past.reverse.flatMap Event.readings

/-- The readings never decrease. -/
def Ordered (past : List Event) : Prop :=
  (timeline past).Pairwise (· ≤ ·)

variable {name other : String} {e : Event} {past : List Event}

theorem sinceReset_cons (h : e ≠ .reset) : sinceReset (e :: past) = e :: sinceReset past :=
  List.takeWhile_cons_of_pos (decide_eq_true h)

theorem sinceReset_reset : sinceReset (.reset :: past) = [] :=
  List.takeWhile_cons_of_neg (by decide)

theorem latestStart?_cons :
    latestStart? name (e :: past) = (e.startOf? name).or (latestStart? name past) := by
  rw [latestStart?, List.findSome?_cons]
  cases e.startOf? name <;> rfl

theorem marks_cons : marks name (e :: past) = (e.mark? name).toList ++ marks name past := by
  rw [marks, List.filterMap_cons]
  cases e.mark? name <;> rfl

theorem spans_cons :
    spans name (e :: past) = (span? name (e :: past)).toList ++ spans name past := by
  rw [spans, List.tails_cons, List.filterMap_cons]
  cases span? name (e :: past) <;> rfl

theorem warnings_cons : warnings (e :: past) = (warning? (e :: past)).toList ++ warnings past := by
  rw [warnings, List.tails_cons, List.filterMap_cons]
  cases warning? (e :: past) <;> rfl

theorem mem_timeline_iff {r : Int} : r ∈ timeline past ↔ ∃ e ∈ past, r ∈ e.readings := by
  simp only [timeline, List.mem_flatMap, List.mem_reverse]

theorem timeline_cons : timeline (e :: past) = timeline past ++ e.readings := by
  rw [timeline, List.reverse_cons, List.flatMap_append, List.flatMap_singleton, timeline]

theorem sum?_cons (x : Int) (xs : List Int) : sum? (x :: xs) = some ((sum? xs).getD 0 + x) := by
  cases xs with
  | nil => simp [sum?]
  | cons y ys => simp [sum?, Int.add_comm]

theorem sum?_eq_some {xs : List Int} {n : Int} (h : sum? xs = some n) : n = xs.sum := by
  cases xs with
  | nil => cases h
  | cons x xs => exact (Option.some.inj h).symm

theorem quiet_of_mark?_eq_none (past : List Event) (h : e.mark? name = none) :
    marks name (e :: past) = marks name past ∧
      latestStart? name (e :: past) = latestStart? name past ∧
      spans name (e :: past) = spans name past := by
  rw [marks_cons, latestStart?_cons, spans_cons, h]
  cases e with
  | started other first second =>
      have hne : other ≠ name := fun heq => by simp [Event.mark?, heq] at h
      simp [Event.startOf?, span?, hne]
  | stopped other first second =>
      have hne : other ≠ name := fun heq => by simp [Event.mark?, heq] at h
      simp [Event.startOf?, span?, hne]
  | _ => exact ⟨rfl, rfl, rfl⟩

theorem eq_started_of_mark? (h : e.mark? name = some true) :
    ∃ first second, e = .started name first second := by
  cases e with
  | started other first second =>
      simp only [Event.mark?, Option.ite_none_right_eq_some] at h
      exact ⟨first, second, by rw [h.1]⟩
  | stopped other first second => simp [Event.mark?] at h
  | _ => cases h

theorem eq_stopped_of_mark? (h : e.mark? name = some false) :
    ∃ first second, e = .stopped name first second := by
  cases e with
  | started other first second => simp [Event.mark?] at h
  | stopped other first second =>
      simp only [Event.mark?, Option.ite_none_right_eq_some] at h
      exact ⟨first, second, by rw [h.1]⟩
  | _ => cases h

theorem marks_started (first second : Int) :
    marks name (.started name first second :: past) = true :: marks name past := by
  simp [marks_cons, Event.mark?]

theorem marks_stopped (first second : Int) :
    marks name (.stopped name first second :: past) = false :: marks name past := by
  simp [marks_cons, Event.mark?]

theorem latestStart?_started (first second : Int) :
    latestStart? name (.started name first second :: past) = some first := by
  simp [latestStart?_cons, Event.startOf?]

theorem spans_started (first second : Int) :
    spans name (.started other first second :: past) = spans name past := by
  simp [spans_cons, span?]

theorem spans_stopped (first second : Int) :
    spans name (.stopped name first second :: past) =
      ((latestStart? name past).map (first - ·)).toList ++ spans name past := by
  simp [spans_cons, span?]

theorem overhead_cons (h : e ≠ .reset) : overhead (e :: past) = overhead past + e.cost := by
  rw [overhead, sinceReset_cons h, List.map_cons, List.sum_cons, overhead, Int.add_comm]

theorem isRunning_started (first second : Int) :
    IsRunning name (.started other first second :: past) ↔ other = name ∨ IsRunning name past := by
  rw [IsRunning, sinceReset_cons (by rintro ⟨⟩), marks_cons, Event.mark?, IsRunning]
  by_cases h : other = name <;> simp [h]

theorem isRunning_stopped (first second : Int) :
    IsRunning name (.stopped other first second :: past) ↔
      other ≠ name ∧ IsRunning name past := by
  rw [IsRunning, sinceReset_cons (by rintro ⟨⟩), marks_cons, Event.mark?, IsRunning]
  by_cases h : other = name <;> simp [h]

theorem not_isRunning_reset : ¬ IsRunning name (.reset :: past) := by
  rw [IsRunning, sinceReset_reset]
  rintro ⟨⟩

theorem latestStart?_eq_none_iff :
    latestStart? name past = none ↔ ∀ first second, .started name first second ∉ past := by
  rw [latestStart?, List.findSome?_eq_none_iff]
  constructor
  · intro h first second hmem
    simpa [Event.startOf?] using h _ hmem
  · intro h e he
    cases e with
    | started other first second =>
        refine if_neg fun heq => h first second ?_
        rwa [← heq]
    | _ => rfl

theorem mem_timeline_of_latestStart? {first : Int} (h : latestStart? name past = some first) :
    first ∈ timeline past := by
  obtain ⟨e, he, hstart⟩ := List.exists_of_findSome?_eq_some h
  refine mem_timeline_iff.mpr ⟨e, he, ?_⟩
  cases e with
  | started other first' second =>
      simp only [Event.startOf?, Option.ite_none_right_eq_some, Option.some.injEq] at hstart
      exact hstart.2 ▸ List.mem_cons_self
  | _ => cases hstart

theorem exists_latestStart?_of_head? (h : (marks name past).head? = some true) :
    ∃ first, latestStart? name past = some first := by
  induction past with
  | nil => cases h
  | cons e past ih =>
      cases hmark : e.mark? name with
      | none =>
          obtain ⟨hmarks, hstart, -⟩ := quiet_of_mark?_eq_none past hmark
          rw [hmarks] at h
          rw [hstart]
          exact ih h
      | some b =>
          rw [marks_cons, hmark] at h
          obtain rfl : b = true := Option.some.inj h
          obtain ⟨first, second, rfl⟩ := eq_started_of_mark? hmark
          exact ⟨first, latestStart?_started first second⟩

theorem marks_ne_nil_of_latestStart? {first : Int} (h : latestStart? name past = some first) :
    marks name past ≠ [] := by
  obtain ⟨e, he, hstart⟩ := List.exists_of_findSome?_eq_some h
  have hmark : e.mark? name = some true := by
    cases e with
    | started other first' second =>
        simp only [Event.startOf?, Option.ite_none_right_eq_some] at hstart
        exact if_pos hstart.1
    | _ => cases hstart
  exact List.ne_nil_of_mem (List.mem_filterMap.mpr ⟨e, he, hmark⟩)

theorem ordered_cons_iff :
    Ordered (e :: past) ↔ Ordered past ∧ e.readings.Pairwise (· ≤ ·) ∧
      ∀ r ∈ timeline past, ∀ r' ∈ e.readings, r ≤ r' := by
  rw [Ordered, timeline_cons, List.pairwise_append, ← Ordered]

theorem Ordered.sinceReset (h : Ordered past) : Ordered (sinceReset past) := by
  have hsuffix : timeline past =
      timeline (past.dropWhile (· ≠ .reset)) ++ timeline (TimerEvents.sinceReset past) := by
    rw [timeline, timeline, timeline, ← List.flatMap_append, ← List.reverse_append,
      TimerEvents.sinceReset, List.takeWhile_append_dropWhile]
  rw [Ordered, hsuffix, List.pairwise_append] at h
  exact h.2.1

theorem span?_nonneg (h : Ordered (e :: past)) {x : Int} (hx : span? name (e :: past) = some x) :
    0 ≤ x := by
  cases e with
  | stopped other first second =>
      simp only [span?, Option.ite_none_right_eq_some, Option.map_eq_some_iff] at hx
      obtain ⟨-, start, hstart, rfl⟩ := hx
      have hle := (ordered_cons_iff.mp h).2.2 start (mem_timeline_of_latestStart? hstart) first
        List.mem_cons_self
      exact Int.sub_nonneg_of_le hle
  | _ => cases hx

theorem spans_nonneg (h : Ordered past) : ∀ x ∈ spans name past, 0 ≤ x := by
  induction past with
  | nil => exact List.forall_mem_nil _
  | cons e past ih =>
      intro x hx
      rw [spans_cons, List.mem_append, Option.mem_toList] at hx
      rcases hx with hx | hx
      · exact span?_nonneg h hx
      · exact ih (ordered_cons_iff.mp h).1 x hx

theorem cost_nonneg (h : e.readings.Pairwise (· ≤ ·)) : 0 ≤ e.cost := by
  cases e with
  | started name first second =>
      exact Int.sub_nonneg_of_le ((List.pairwise_cons.mp h).1 second List.mem_cons_self)
  | stopped name first second =>
      exact Int.sub_nonneg_of_le ((List.pairwise_cons.mp h).1 second List.mem_cons_self)
  | _ => exact Int.le_refl 0

theorem costs_nonneg (h : Ordered past) : ∀ x ∈ past.map Event.cost, 0 ≤ x := by
  induction past with
  | nil => exact List.forall_mem_nil _
  | cons e past ih =>
      obtain ⟨hpast, he, -⟩ := ordered_cons_iff.mp h
      exact List.forall_mem_cons.mpr ⟨cost_nonneg he, ih hpast⟩

theorem overhead_nonneg (h : Ordered past) : 0 ≤ overhead past :=
  List.sum_nonneg (costs_nonneg h.sinceReset)

/-- The spans lie one behind the other above a bottom. So their sum is bounded by the time up to the
latest start if the timer runs, and by the time up to now if not. -/
structure SpansBounded (name : String) (bottom : Int) (past : List Event) : Prop where
  running (hhead : (marks name past).head? = some true) (start : Int)
    (hstart : latestStart? name past = some start) : (spans name past).sum ≤ start - bottom
  idle (hhead : (marks name past).head? ≠ some true) (top : Int) (htop : bottom ≤ top)
    (hbelow : ∀ r ∈ timeline past, r ≤ top) : (spans name past).sum ≤ top - bottom

section

variable {bottom first second : Int}

theorem spansBounded_nil : SpansBounded name bottom [] where
  running := by rintro ⟨⟩
  idle _ _ htop _ := Int.sub_nonneg_of_le htop

theorem SpansBounded.quiet (h : SpansBounded name bottom past) (hmark : e.mark? name = none) :
    SpansBounded name bottom (e :: past) := by
  obtain ⟨hmarks, hstart, hspans⟩ := quiet_of_mark?_eq_none past hmark
  constructor
  · rw [hmarks, hstart, hspans]
    exact h.running
  · rw [hmarks, hspans, timeline_cons]
    intro hhead top htop hbelow
    exact h.idle hhead top htop (List.forall_mem_append.mp hbelow).1

theorem SpansBounded.start (h : SpansBounded name bottom past)
    (hhead : (marks name past).head? ≠ some true) (hbottom : bottom ≤ first)
    (hbelow : ∀ r ∈ timeline past, r ≤ first) :
    SpansBounded name bottom (.started name first second :: past) := by
  constructor
  · intro _ start hstart
    rw [latestStart?_started] at hstart
    obtain rfl : first = start := Option.some.inj hstart
    rw [spans_started]
    exact h.idle hhead first hbottom hbelow
  · intro hidle
    rw [marks_started] at hidle
    exact absurd rfl hidle

theorem head?_marks_of_latestStart? {start : Int} (hstart : latestStart? name past = some start)
    (hhead : (marks name past).head? ≠ some false) : (marks name past).head? = some true := by
  cases hmarks : marks name past with
  | nil => exact absurd hmarks (marks_ne_nil_of_latestStart? hstart)
  | cons b rest =>
      rw [hmarks] at hhead
      cases b with
      | false => exact absurd rfl hhead
      | true => rfl

theorem SpansBounded.stop (h : SpansBounded name bottom past)
    (hhead : (marks name past).head? ≠ some false) :
    SpansBounded name bottom (.stopped name first second :: past) := by
  constructor
  · rw [marks_stopped]
    rintro ⟨⟩
  · intro _ top htop hbelow
    rw [timeline_cons] at hbelow
    obtain ⟨hbelowPast, hbelowHere⟩ := List.forall_mem_append.mp hbelow
    rw [spans_stopped]
    cases hstart : latestStart? name past with
    | none =>
        refine h.idle ?_ top htop hbelowPast
        intro hrunning
        obtain ⟨start, hsome⟩ := exists_latestStart?_of_head? hrunning
        exact nomatch hstart.symm.trans hsome
    | some start =>
        have hsum := h.running (head?_marks_of_latestStart? hstart hhead) start hstart
        have hfirst : first ≤ top := hbelowHere first List.mem_cons_self
        simp only [Option.map_some, Option.toList_some, List.singleton_append, List.sum_cons]
        omega

end

theorem spansBounded (h : Ordered past) (halternates : (marks name past).IsChain (· ≠ ·))
    {bottom : Int} (hbottom : ∀ r ∈ timeline past, bottom ≤ r) :
    SpansBounded name bottom past := by
  induction past with
  | nil => exact spansBounded_nil
  | cons e past ih =>
      obtain ⟨hpast, -, hlater⟩ := ordered_cons_iff.mp h
      rw [timeline_cons] at hbottom
      obtain ⟨hbottomPast, hbottomHere⟩ := List.forall_mem_append.mp hbottom
      cases hmark : e.mark? name with
      | none =>
          rw [(quiet_of_mark?_eq_none past hmark).1] at halternates
          exact (ih hpast halternates hbottomPast).quiet hmark
      | some b =>
          rw [marks_cons, hmark] at halternates
          obtain ⟨hturn, hrest⟩ := List.isChain_cons.mp halternates
          have hhead : (marks name past).head? ≠ some b := fun heq => hturn b heq rfl
          cases b with
          | true =>
              obtain ⟨first, second, rfl⟩ := eq_started_of_mark? hmark
              exact (ih hpast hrest hbottomPast).start hhead (hbottomHere first List.mem_cons_self)
                fun r hr => hlater r hr first List.mem_cons_self
          | false =>
              obtain ⟨first, second, rfl⟩ := eq_stopped_of_mark? hmark
              exact (ih hpast hrest hbottomPast).stop hhead

theorem mem_timeline_of_mem_sinceReset {r : Int} (h : r ∈ timeline (sinceReset past)) :
    r ∈ timeline past := by
  obtain ⟨e, he, hr⟩ := mem_timeline_iff.mp h
  exact mem_timeline_iff.mpr ⟨e, (List.takeWhile_sublist _).subset he, hr⟩

theorem timeline_ne_nil_of_mem_spans {x : Int} (h : x ∈ spans name past) : timeline past ≠ [] := by
  obtain ⟨later, hlater, hx⟩ := List.mem_filterMap.mp h
  rw [List.mem_tails] at hlater
  cases later with
  | nil => cases hx
  | cons e rest =>
      cases e with
      | stopped other first second =>
          exact List.ne_nil_of_mem (mem_timeline_iff.mpr
            ⟨_, hlater.subset List.mem_cons_self, List.mem_cons_self⟩)
      | _ => cases hx

theorem total_le (h : Ordered past) (halternates : Alternates name past) {total : Int}
    (htotal : sum? (spans name (sinceReset past)) = some total) :
    ∃ first last, (timeline past).head? = some first ∧ (timeline past).getLast? = some last ∧
      total ≤ last - first := by
  have hspans : spans name (sinceReset past) ≠ [] := by
    intro hnil
    rw [hnil] at htotal
    cases htotal
  obtain ⟨x, hx⟩ := List.exists_mem_of_ne_nil _ hspans
  obtain ⟨r, hr⟩ := List.exists_mem_of_ne_nil _ (timeline_ne_nil_of_mem_spans hx)
  have hnil : timeline past ≠ [] := List.ne_nil_of_mem (mem_timeline_of_mem_sinceReset hr)
  have hfirst : ∀ r ∈ timeline past, (timeline past).head hnil ≤ r := fun r hr => h.rel_head hr
  have hlast : ∀ r ∈ timeline past, r ≤ (timeline past).getLast hnil :=
    fun r hr => h.rel_getLast hr
  refine ⟨_, _, List.head?_eq_some_head hnil, List.getLast?_eq_some_getLast hnil, ?_⟩
  have hbounded := spansBounded h.sinceReset halternates
    fun r hr => hfirst r (mem_timeline_of_mem_sinceReset hr)
  rw [sum?_eq_some htotal]
  by_cases hhead : (marks name (sinceReset past)).head? = some true
  · obtain ⟨start, hstart⟩ := exists_latestStart?_of_head? hhead
    have hle := hlast start (mem_timeline_of_mem_sinceReset (mem_timeline_of_latestStart? hstart))
    exact (hbounded.running hhead start hstart).trans (Int.sub_le_sub_right hle _)
  · exact hbounded.idle hhead _ (hfirst _ (List.getLast_mem hnil))
      fun r hr => hlast r (mem_timeline_of_mem_sinceReset hr)

end FragmentSynthesis.Proofs.TimerEvents
