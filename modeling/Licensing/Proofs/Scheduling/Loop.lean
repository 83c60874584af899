import Licensing.Proofs.Scheduling.Timetable

/-!
# A loop keeps to its timetable

The loop of a job starts the runs of the timetable, one after the other, and no others. What one
step of a loop can be is said once (`JobLoop.Does`): it starts a run, ends one, or leaves. The
invariant `JobLoop.Keeps` says where the loop stands in the timetable; each step preserves it, and
so does a loop that is let go on up to a last moment (`Keeps.advance`), which takes the whole of
what it can do by then. A loop that is told to stop (`Keeps.stop`) starts no more run, whichever
branch it takes, and has stopped by the end of the run in progress.

* `Keeps.does` is the step lemma, a case analysis of `JobLoop.Does`. It is the only place where the
  phases of a loop meet the slots of the timetable.
* `Keeps.advance` rests on it by induction on the steps that a loop may still make. Their number is
  finite because ticks are at least one unit of time apart (`Keeps.stepsLeft_lt`); that is what the
  interval not being zero is needed for.
* `Keeps.stop` does not use the induction: a loop that was told to stop leaves whichever branch it
  takes (`follow_of_stop`), so at most the end of one run comes before that.
-/

namespace Licensing

/-! ### Events of one job -/

namespace JobEvents

/-- When the runs of a job started. -/
def startsOf (events : JobEvents) (job : String) : List Nat :=
  (events.starts.filter (·.2 = job)).map (·.1)

/-- Only runs of one job start. -/
def OnlyOf (job : String) (events : JobEvents) : Prop := ∀ start ∈ events.starts, start.2 = job

theorem starts_append (a b : JobEvents) : (a ++ b).starts = a.starts ++ b.starts := rfl

theorem append_empty (events : JobEvents) : events ++ ({} : JobEvents) = events := by
  show JobEvents.mk (events.starts ++ []) (events.log ++ []) = events
  rw [List.append_nil, List.append_nil]

theorem append_assoc (a b c : JobEvents) : a ++ b ++ c = a ++ (b ++ c) :=
  congrArg₂ JobEvents.mk (List.append_assoc ..) (List.append_assoc ..)

theorem startsOf_append (a b : JobEvents) (job : String) :
    (a ++ b).startsOf job = a.startsOf job ++ b.startsOf job := by
  rw [startsOf, starts_append, List.filter_append, List.map_append]
  rfl

theorem startsOf_of_silent {events : JobEvents} (h : events.starts = []) (job : String) :
    events.startsOf job = [] := by
  rw [startsOf, h]
  rfl

theorem starts_run (run : JobRun) (job : String) : (run.events job).starts = [] := by
  unfold JobRun.events
  split <;> rfl

variable {job : String} {events : JobEvents}

theorem OnlyOf.append {more : JobEvents} (h : events.OnlyOf job) (hmore : more.OnlyOf job) :
    (events ++ more).OnlyOf job := by
  intro start hstart
  obtain hstart | hstart := List.mem_append.1 hstart
  · exact h start hstart
  · exact hmore start hstart

theorem onlyOf_of_silent (h : events.starts = []) : events.OnlyOf job := by
  intro start hstart
  rw [h] at hstart
  cases hstart

theorem OnlyOf.startsOf_of_ne {other : String} (h : events.OnlyOf job) (hne : other ≠ job) :
    events.startsOf other = [] := by
  have hnone : events.starts.filter (·.2 = other) = [] := by
    refine List.filter_eq_nil_iff.2 fun start hstart ↦ ?_
    simpa [h start hstart] using Ne.symm hne
  rw [startsOf, hnone]
  rfl

end JobEvents

/-- What a loop is at, at a time before which the run of a slot has not started. -/
def Phase.Fits (slot : Slot) (now : Nat) : Phase → Prop
  | .waiting => slot.ready ≤ now ∧ now ≤ slot.starts
  | .running ending => slot.ready = ending ∧ now ≤ ending
  | .stopped => slot.ready ≤ now

/-! ### Steps -/

namespace JobLoop

/-- What a loop can do next, and when. -/
inductive Does (loop : JobLoop) (now last : Nat) : Nat → JobLoop × JobEvents → Prop
  | begins (hphase : loop.phase = .waiting) (hsignal : loop.signal ≠ .stop)
      (hlast : max now loop.due ≤ last) :
      Does loop now last (max now loop.due) (loop.begin (max now loop.due))
  | finishes {ending : Nat} (hphase : loop.phase = .running ending) (hlast : ending ≤ last) :
      Does loop now last ending loop.finish
  | leaves (hphase : loop.phase = .waiting) (hsignal : loop.signal ≠ .quiet) :
      Does loop now last now loop.leave

variable {loop : JobLoop} {now last time : Nat} {outcome : JobLoop × JobEvents}

/-- A loop that hears nothing waits for its tick. One that hears a signal takes a branch at once,
and its tick only if that is due. -/
theorem select_cases {branch : Branch} (h : loop.select now last = some (time, branch)) :
    (loop.signal = .quiet ∧ branch = .tick ∧ time = max now loop.due ∧ time ≤ last) ∨
      (loop.signal ≠ .quiet ∧ time = now ∧ (branch = .tick → loop.due ≤ now)) := by
  -- The two signals are heard alike.
  have hheard : loop.signal ≠ .quiet → some (time, branch) = some (now,
      if loop.due ≤ now then loop.runtime.choice loop.job.name loop.runs else .signal) →
      time = now ∧ (branch = .tick → loop.due ≤ now) := by
    intro _ hbranch
    cases hbranch
    refine ⟨rfl, fun htick ↦ ?_⟩
    by_contra hdue
    rw [if_neg hdue] at htick
    cases htick
  unfold select at h
  cases hsignal : loop.signal with
  | quiet =>
    rw [hsignal] at h
    obtain ⟨hlast, htaken⟩ : max now loop.due ≤ last ∧
        (max now loop.due, Branch.tick) = (time, branch) := by
      simpa using h
    cases htaken
    exact .inl ⟨rfl, rfl, rfl, hlast⟩
  | stop =>
    rw [hsignal] at h hheard
    exact .inr ⟨by decide, hheard (by decide) h.symm⟩
  | gone =>
    rw [hsignal] at h hheard
    exact .inr ⟨by decide, hheard (by decide) h.symm⟩

/-- **What a loop does is to start a run, to end one, or to leave.** -/
theorem does_of_next (hnow : now ≤ last) (h : loop.next now last = some (time, outcome)) :
    loop.Does now last time outcome := by
  unfold next at h
  split at h
  next hphase =>
    obtain ⟨⟨taken, branch⟩, hselect, hfollow⟩ := Option.map_eq_some_iff.1 h
    cases hfollow
    obtain ⟨hquiet, rfl, rfl, hlast⟩ | ⟨hheard, rfl, htick⟩ := select_cases hselect
    · have hsignal : loop.signal ≠ .stop := by rw [hquiet]; decide
      rw [follow, if_neg hsignal]
      exact .begins hphase hsignal hlast
    · -- Where both are there, having taken the tick still leaves the question of the signal.
      cases branch with
      | tick =>
        have hdue : max time loop.due = time := Nat.max_eq_left (htick rfl)
        rw [follow]
        split
        next => exact .leaves hphase hheard
        next hsignal =>
          have hbegins : loop.Does time last (max time loop.due) (loop.begin (max time loop.due)) :=
            .begins hphase hsignal (hdue.trans_le hnow)
          rwa [hdue] at hbegins
      | signal => exact .leaves hphase hheard
  next ending hphase =>
    obtain ⟨hlast, hfinish⟩ : ending ≤ last ∧ (ending, loop.finish) = (time, outcome) := by
      simpa using h
    cases hfinish
    exact .finishes hphase hlast
  next => cases h

/-- A loop that does nothing up to a last moment waits for a later tick, or for the end of a run
that lasts longer, or has stopped. -/
theorem rest_of_next (h : loop.next now last = none) :
    (loop.phase = .waiting ∧ loop.signal = .quiet ∧ last < max now loop.due) ∨
      (∃ ending, loop.phase = .running ending ∧ last < ending) ∨ loop.phase = .stopped := by
  unfold next at h
  split at h
  next hphase =>
    have hselect := Option.map_eq_none_iff.1 h
    unfold select at hselect
    cases hsignal : loop.signal with
    | quiet =>
      rw [hsignal] at hselect
      refine .inl ⟨hphase, rfl, ?_⟩
      by_contra hlast
      rw [if_pos (Nat.le_of_not_lt hlast)] at hselect
      cases hselect
    | _ =>
      rw [hsignal] at hselect
      cases hselect
  next ending hphase =>
    refine .inr (.inl ⟨ending, hphase, ?_⟩)
    simpa using h
  next hphase => exact .inr (.inr hphase)

/-! ### Where a loop stands -/

/-- How a loop that keeps to the timetable of its job stands at a time, after some starts. -/
structure Keeps (job : Job) (runtime : Runtime) (start now : Nat) (starts : List Nat)
    (loop : JobLoop) : Prop where
  job_eq : loop.job = job
  runtime_eq : loop.runtime = runtime
  starts_eq : starts = job.timetable runtime start loop.runs
  due_eq : loop.due = (job.slot runtime start loop.runs).due
  fits : loop.phase.Fits (job.slot runtime start loop.runs) now
  heard : loop.phase = .stopped → loop.signal ≠ .quiet
  past : ∀ time ∈ starts, time ≤ now

variable {job : Job} {runtime : Runtime} {start : Nat} {starts : List Nat}

/-- The loop of a job that was just started waits for the first tick. -/
theorem keeps_start (job : Job) (runtime : Runtime) (start : Nat) :
    (JobLoop.start runtime start job).Keeps job runtime start start [] where
  job_eq := rfl
  runtime_eq := rfl
  starts_eq := rfl
  due_eq := rfl
  fits := ⟨Nat.le_refl start, Nat.le_max_left start _⟩
  heard := by
    intro hstopped
    cases hstopped
  past := by simp

namespace Keeps

/-- A loop that has stopped stands there for ever. -/
theorem of_stopped (h : loop.Keeps job runtime start now starts) (hphase : loop.phase = .stopped)
    {later : Nat} (hlater : now ≤ later) : loop.Keeps job runtime start later starts where
  __ := h
  fits := by
    have hfits := h.fits
    rw [hphase] at hfits ⊢
    exact Nat.le_trans hfits hlater
  past time htime := Nat.le_trans (h.past time htime) hlater

/-- A loop that has heard nothing is not behind its timetable. -/
theorem le_starts (h : loop.Keeps job runtime start now starts) (hquiet : loop.signal = .quiet) :
    now ≤ (job.slot runtime start loop.runs).starts := by
  have hfits := h.fits
  cases hphase : loop.phase with
  | waiting =>
    rw [hphase] at hfits
    exact hfits.2
  | running ending =>
    rw [hphase] at hfits
    obtain ⟨hready, hending⟩ := hfits
    exact Nat.le_trans (hready ▸ hending) (job.ready_le_starts runtime start loop.runs)
  | stopped => exact absurd hquiet (h.heard hphase)

/-- When a loop has stopped, all its runs have ended. -/
theorem ends_le (h : loop.Keeps job runtime start now starts) (hphase : loop.phase = .stopped)
    {k time : Nat} (htime : starts[k]? = some time) : time + (job.run k).duration ≤ now := by
  have hfits := h.fits
  rw [hphase] at hfits
  rw [h.starts_eq] at htime
  obtain ⟨hk, rfl⟩ := Job.getElem?_timetable.1 htime
  exact Nat.le_trans (job.ends_le_ready runtime start hk) hfits

/-- Where a loop does nothing up to a last moment, it stands as it did, then and just after. -/
theorem rest (h : loop.Keeps job runtime start now starts) (hnext : loop.next now last = none)
    {later : Nat} (hnow : now ≤ later) (hlater : later ≤ last + 1) :
    loop.Keeps job runtime start later starts where
  __ := h
  fits := by
    have hfits := h.fits
    have hdue := h.due_eq
    obtain ⟨hphase, -, hlast⟩ | ⟨ending, hphase, hlast⟩ | hphase := rest_of_next hnext
    · rw [hphase] at hfits ⊢
      obtain ⟨hready, hstarts⟩ := hfits
      refine ⟨Nat.le_trans hready hnow, ?_⟩
      -- The run is still to come, since its tick is.
      have htick := job.due_le_starts runtime start loop.runs
      omega
    · rw [hphase] at hfits ⊢
      obtain ⟨hends, -⟩ := hfits
      exact ⟨hends, by omega⟩
    · rw [hphase] at hfits ⊢
      exact Nat.le_trans hfits hnow
  past time htime := Nat.le_trans (h.past time htime) hnow

/-- **Each step keeps to the timetable.** -/
theorem does (h : loop.Keeps job runtime start now starts) (hnow : now ≤ last)
    (hdoes : loop.Does now last time outcome) :
    now ≤ time ∧ time ≤ last ∧ outcome.2.OnlyOf job.name ∧
      outcome.1.Keeps job runtime start time (starts ++ outcome.2.startsOf job.name) := by
  obtain ⟨rfl, rfl, hstarts, hdue, hfits, hheard, hpast⟩ := h
  cases hdoes with
  | begins hphase hsignal hlast =>
    rw [hphase] at hfits
    obtain ⟨hready, hbefore⟩ := hfits
    -- The loop takes the tick at the very moment of the timetable.
    have htime : max now loop.due = (loop.job.slot loop.runtime start loop.runs).starts := by
      rw [Slot.starts] at hbefore ⊢
      omega
    have honly : (loop.begin (max now loop.due)).2.OnlyOf loop.job.name := by
      simp [JobEvents.OnlyOf, begin]
    have hstart : (loop.begin (max now loop.due)).2.startsOf loop.job.name =
        [max now loop.due] := by
      simp [JobEvents.startsOf, begin]
    refine ⟨Nat.le_max_left _ _, hlast, honly, ?_⟩
    rw [hstart, htime]
    exact {
      job_eq := rfl
      runtime_eq := rfl
      starts_eq := by rw [hstarts]; exact (Job.timetable_succ ..).symm
      due_eq := by
        show loop.runtime.nextTick loop.job.every loop.due _ = _
        rw [hdue]
        exact (Job.slot_succ_due ..).symm
      fits := ⟨rfl, Nat.le_add_right _ _⟩
      heard := by
        intro hstopped
        cases hstopped
      past := by
        intro time htime
        obtain htime | htime := List.mem_append.1 htime
        · exact Nat.le_trans (hpast time htime) hbefore
        · exact (List.mem_singleton.1 htime).le }
  | finishes hphase hlast =>
    rw [hphase] at hfits
    obtain ⟨hends, hending⟩ := hfits
    have hsilent : loop.finish.2.starts = [] := JobEvents.starts_run _ _
    refine ⟨hending, hlast, JobEvents.onlyOf_of_silent hsilent, ?_⟩
    rw [JobEvents.startsOf_of_silent hsilent, List.append_nil]
    -- The next run is to come, since the loop is ready for it only now.
    have hafter := loop.job.ready_le_starts loop.runtime start loop.runs
    exact {
      job_eq := rfl
      runtime_eq := rfl
      starts_eq := hstarts
      due_eq := hdue
      fits := ⟨hends.le, hends ▸ hafter⟩
      heard := by
        intro hstopped
        cases hstopped
      past := fun time htime ↦ Nat.le_trans (hpast time htime) hending }
  | leaves hphase hsignal =>
    rw [hphase] at hfits
    obtain ⟨hready, -⟩ := hfits
    refine ⟨Nat.le_refl now, hnow, JobEvents.onlyOf_of_silent rfl, ?_⟩
    rw [JobEvents.startsOf_of_silent rfl, List.append_nil]
    exact ⟨rfl, rfl, hstarts, hdue, hready, fun _ ↦ hsignal, hpast⟩

end Keeps

/-! ### Going on -/

/-- How many steps a loop may still make up to a last moment. -/
def stepsLeft (loop : JobLoop) (last : Nat) : Nat :=
  2 * (last + 1 - loop.due) + match loop.phase with
    | .waiting => 1
    | .running _ => 2
    | .stopped => 0

theorem stepsLeft_le (loop : JobLoop) (last : Nat) : loop.stepsLeft last ≤ loop.steps last := by
  unfold stepsLeft steps
  split <;> omega

/-- Each step leaves fewer of them, since ticks are apart. -/
theorem Keeps.stepsLeft_lt (hruntime : runtime.Regular) (hevery : 0 < job.every)
    (h : loop.Keeps job runtime start now starts) (hdoes : loop.Does now last time outcome) :
    outcome.1.stepsLeft last < loop.stepsLeft last := by
  unfold stepsLeft
  cases hdoes with
  | begins hphase hsignal hlast =>
    have hlater : loop.due < (loop.begin (max now loop.due)).1.due := by
      show loop.due < loop.runtime.nextTick loop.job.every loop.due (max now loop.due)
      obtain ⟨missed, hnext⟩ := hruntime.multiple hevery (Nat.le_max_right now loop.due)
      have happart : 0 < (missed + 1) * job.every := Nat.mul_pos (Nat.succ_pos missed) hevery
      rw [h.runtime_eq, h.job_eq, hnext]
      omega
    rw [hphase]
    simp only [begin] at hlater ⊢
    omega
  | finishes hphase hlast =>
    rw [hphase]
    simp only [finish]
    omega
  | leaves hphase hsignal =>
    rw [hphase]
    simp only [leave]
    omega

theorem signal_of_does (hdoes : loop.Does now last time outcome) :
    outcome.1.signal = loop.signal := by
  cases hdoes <;> rfl

/-- What a loop has come to after some events, if it keeps to the timetable: nothing is left that it
could have done by the last moment, so it stands there also just after. -/
structure KeptTo (job : Job) (runtime : Runtime) (start last : Nat) (starts : List Nat)
    (signal : Signal) (outcome : JobLoop × JobEvents) : Prop where
  onlyOf : outcome.2.OnlyOf job.name
  keeps {later : Nat} : last ≤ later → later ≤ last + 1 →
    outcome.1.Keeps job runtime start later (starts ++ outcome.2.startsOf job.name)
  signal_eq : outcome.1.signal = signal

namespace Keeps

/-- A loop that does nothing up to a last moment has kept to the timetable. -/
theorem keptTo_of_next (h : loop.Keeps job runtime start now starts) (hnow : now ≤ last)
    (hnext : loop.next now last = none) :
    KeptTo job runtime start last starts loop.signal (loop, {}) where
  onlyOf := JobEvents.onlyOf_of_silent rfl
  keeps {later} hlast hlater := by
    rw [JobEvents.startsOf_of_silent rfl, List.append_nil]
    exact h.rest hnext (Nat.le_trans hnow hlast) hlater
  signal_eq := rfl

/-- **A loop that makes as many steps as it can keeps to the timetable.** -/
theorem run (hruntime : runtime.Regular) (hevery : 0 < job.every) {steps : Nat}
    (h : loop.Keeps job runtime start now starts) (hnow : now ≤ last)
    (hsteps : loop.stepsLeft last ≤ steps) :
    KeptTo job runtime start last starts loop.signal (loop.run steps now last) := by
  -- Were there too few steps, one of them would still be possible after the last.
  induction steps generalizing loop now starts with
  | zero =>
    cases hnext : loop.next now last with
    | none => exact h.keptTo_of_next hnow hnext
    | some step =>
      have hfewer := h.stepsLeft_lt hruntime hevery (does_of_next hnow hnext)
      omega
  | succ steps ih =>
    rw [JobLoop.run]
    cases hnext : loop.next now last with
    | none => exact h.keptTo_of_next hnow hnext
    | some step =>
      obtain ⟨time, next, events⟩ := step
      have hdoes := does_of_next hnow hnext
      have hfewer := h.stepsLeft_lt hruntime hevery hdoes
      obtain ⟨-, hlast, honly, hkeeps⟩ := h.does hnow hdoes
      have hrest := ih hkeeps hlast (by omega)
      exact {
        onlyOf := honly.append hrest.onlyOf
        keeps := by
          intro later hlate hlater
          rw [JobEvents.startsOf_append, ← List.append_assoc]
          exact hrest.keeps hlate hlater
        signal_eq := hrest.signal_eq.trans (signal_of_does hdoes) }

/-- Letting time pass lets the loop do all that it can do by then. -/
theorem advance (hruntime : runtime.Regular) (hevery : 0 < job.every)
    (h : loop.Keeps job runtime start now starts) (hnow : now ≤ last) :
    KeptTo job runtime start last starts loop.signal (loop.advance now last) :=
  h.run hruntime hevery hnow (loop.stepsLeft_le last)

end Keeps

/-! ### Stopping -/

/-- A loop that has stopped does nothing. -/
theorem run_of_stopped (h : loop.phase = .stopped) (steps now last : Nat) :
    loop.run steps now last = (loop, {}) := by
  have hnext : loop.next now last = none := by rw [next, h]
  cases steps with
  | zero => rfl
  | succ steps => rw [run, hnext]

theorem advance_of_stopped (h : loop.phase = .stopped) (now last : Nat) :
    loop.advance now last = (loop, {}) :=
  run_of_stopped h _ now last

/-- **A loop that was told to stop leaves, whichever branch it takes.** -/
theorem follow_of_stop (h : loop.signal = .stop) (now : Nat) (branch : Branch) :
    loop.follow now branch = loop.leave := by
  cases branch with
  | tick => rw [follow, if_pos h]
  | signal => rfl

/-- A loop that leaves next does nothing else. -/
theorem run_of_leaves (h : loop.next now last = some (now, loop.leave)) (steps : Nat) :
    loop.run (steps + 1) now last = loop.leave := by
  rw [run, h]
  simp only [run_of_stopped (show loop.leave.1.phase = .stopped from rfl)]
  rfl

/-- A loop that waits and is told to stop leaves at once. -/
theorem run_of_stop (hphase : loop.phase = .waiting) (hsignal : loop.signal = .stop)
    (steps now last : Nat) : loop.run (steps + 1) now last = loop.leave := by
  refine run_of_leaves ?_ steps
  rw [next, hphase]
  simp only [select, hsignal, Option.map_some, follow_of_stop hsignal]

theorem stop_of_waiting (h : loop.phase = .waiting) (now : Nat) :
    loop.stop now = ((loop.hear .stop).leave, now) := by
  have hidle : loop.idleAt now = now := by rw [idleAt, h]
  have hphase : (loop.hear .stop).phase = .waiting := h
  rw [stop, hidle, advance, steps, run_of_stop hphase rfl]

theorem stop_of_running {ending : Nat} (h : loop.phase = .running ending) (now : Nat) :
    loop.stop now =
      (((loop.hear .stop).finish.1.leave.1, (loop.hear .stop).finish.2), max now ending) := by
  have hidle : loop.idleAt now = max now ending := by rw [idleAt, h]
  have hnext : (loop.hear .stop).next now (max now ending) =
      some (ending, (loop.hear .stop).finish) := by
    have hphase : (loop.hear .stop).phase = .running ending := h
    rw [next, hphase]
    exact if_pos (Nat.le_max_right now ending)
  rw [stop, hidle, advance, steps, run, hnext]
  simp only [run_of_stop (show (loop.hear .stop).finish.1.phase = .waiting from rfl) rfl]
  rw [show (loop.hear .stop).finish.1.leave.2 = {} from rfl, JobEvents.append_empty]

theorem stop_of_stopped (h : loop.phase = .stopped) (now : Nat) :
    loop.stop now = ((loop.hear .stop, {}), now) := by
  have hidle : loop.idleAt now = now := by rw [idleAt, h]
  have hphase : (loop.hear .stop).phase = .stopped := h
  rw [stop, hidle, advance_of_stopped hphase]

/-- **A loop that is told to stop starts no more run**, and has stopped by the end of the one in
progress. -/
theorem Keeps.stop (h : loop.Keeps job runtime start now starts) :
    now ≤ (loop.stop now).2 ∧ (loop.stop now).1.1.phase = .stopped ∧
      (loop.stop now).1.2.starts = [] ∧
      (loop.stop now).1.1.Keeps job runtime start (loop.stop now).2 starts := by
  have hfits := h.fits
  cases hphase : loop.phase with
  | waiting =>
    rw [hphase] at hfits
    obtain ⟨hready, -⟩ := hfits
    rw [stop_of_waiting hphase]
    refine ⟨Nat.le_refl now, rfl, rfl, ?_⟩
    exact { h with fits := hready, heard := by intro _ hquiet; cases hquiet }
  | running ending =>
    rw [hphase] at hfits
    obtain ⟨hready, hending⟩ := hfits
    rw [stop_of_running hphase]
    refine ⟨Nat.le_max_left now ending, rfl, JobEvents.starts_run _ _, ?_⟩
    exact {
      h with
      fits := hready.le.trans (Nat.le_max_right now ending)
      heard := by intro _ hquiet; cases hquiet
      past := fun time htime ↦ Nat.le_trans (h.past time htime) (Nat.le_max_left now ending) }
  | stopped =>
    rw [stop_of_stopped hphase]
    refine ⟨Nat.le_refl now, hphase, rfl, ?_⟩
    exact { h with heard := by intro _ hquiet; cases hquiet }

end JobLoop

end Licensing
