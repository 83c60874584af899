import Mathlib.Data.List.Nodup
import Licensing.Proofs.Scheduling.Loop

/-!
# The runs of the jobs of a scheduler

A scheduler is followed from its start through any sequence of moves: time passes, with what is due
at the last moment or just short of it, and the scheduler is shut down. Its loops do not depend on
each other, and since no two jobs have the same name, the starts under a name are those of one loop
(`startsOf_gather`). So each job keeps to its own timetable, however long the runs of the others
take (`RunningScheduler.Keeps`), and `Scheduler.Registered.keepsTime` reads off what that means.

What the main result rests on, from below:

* registering makes sure of intervals that are not zero and of names that are different
  (`Scheduler.Registered.proper`);
* every move keeps every loop to its timetable (`Keeps.move`), one loop at a time and then together
  (`Keeps.gather`), and any sequence of moves does by induction (`Keeps.follow`);
* the timetable is timely, and nothing of it is missed by a loop that was not told to stop
  (`Job.timely_timetable`, `Job.goesOn_timetable`).

What is assumed of the runtime is in the last of these only: `Runtime.Regular`.
-/

namespace Licensing

/-! ### Registering -/

namespace Scheduler

/-- The schedulers that registering leads to. Where a job is refused, nothing changes. -/
inductive Registered : Scheduler → Prop
  | empty : Registered {}
  | register {scheduler next : Scheduler} {job : Job} (h : Registered scheduler)
      (hregister : scheduler.register job = .ok next) : Registered next

/-- What registering makes sure of. -/
structure Proper (scheduler : Scheduler) : Prop where
  every_pos : ∀ job ∈ scheduler.jobs, 0 < job.every
  nodup_names : scheduler.names.Nodup

/-- A job is registered only with an interval that is not zero, and under a new name. -/
theorem Proper.register {scheduler next : Scheduler} {job : Job} (h : scheduler.Proper)
    (hregister : scheduler.register job = .ok next) : next.Proper := by
  unfold Scheduler.register at hregister
  split at hregister
  next => cases hregister
  next hevery =>
    split at hregister
    next => cases hregister
    next hnew =>
      cases hregister
      have hfresh : job.name ∉ scheduler.names := by simpa using hnew
      constructor
      · intro other hother
        obtain hother | hother := List.mem_append.1 hother
        · exact h.every_pos other hother
        · rw [List.mem_singleton.1 hother]
          exact Nat.pos_of_ne_zero hevery
      · show ((scheduler.jobs ++ [job]).map (·.name)).Nodup
        rw [List.map_append]
        refine List.nodup_append.2 ⟨h.nodup_names, List.nodup_singleton _, ?_⟩
        intro name hname other hother
        rw [List.mem_singleton.1 hother]
        exact ne_of_mem_of_not_mem hname hfresh

theorem Registered.proper {scheduler : Scheduler} (h : scheduler.Registered) :
    scheduler.Proper := by
  induction h with
  | empty => exact ⟨by simp, List.nodup_nil⟩
  | register _ hregister ih => exact ih.register hregister

end Scheduler

/-! ### Moves -/

namespace RunningScheduler

/-- What can happen to a scheduler that runs: time passes, and what is due at the last moment
happens or is still to happen; and it is shut down. -/
inductive Move
  | advance (millis : Nat)
  | elapse (millis : Nat)
  | shutdown

/-- Lets time pass; what is due at the last moment is still to happen. -/
def elapse (running : RunningScheduler) : Nat → RunningScheduler × JobEvents
  | 0 => (running, {})
  | millis + 1 =>
    let (running, events) := running.advance millis
    ({ running with now := running.now + 1 }, events)

/-- The scheduler after a move, and what happened. -/
def move (running : RunningScheduler) : Move → RunningScheduler × JobEvents
  | .advance millis => running.advance millis
  | .elapse millis => running.elapse millis
  | .shutdown => running.shutdown

/-- The scheduler after some moves, and all that happened. -/
def follow (running : RunningScheduler) : List Move → RunningScheduler × JobEvents
  | [] => (running, {})
  | m :: rest =>
    let (running, events) := running.move m
    let (running, more) := running.follow rest
    (running, events ++ more)

/-! ### Loops beside each other -/

theorem starts_gather (results : List (JobLoop × JobEvents)) :
    (gather results).2.starts = results.flatMap (·.2.starts) := by
  have hall : ∀ events : JobEvents,
      (results.foldl (fun events result ↦ events ++ result.2) events).starts =
        events.starts ++ results.flatMap (·.2.starts) := by
    induction results with
    | nil =>
      intro events
      exact (List.append_nil _).symm
    | cons result rest ih =>
      intro events
      rw [List.foldl_cons, ih, JobEvents.starts_append, List.flatMap_cons, List.append_assoc]
  exact hall {}

theorem mem_gather {loops : List JobLoop} {step : JobLoop → JobLoop × JobEvents}
    {stepped : JobLoop} (h : stepped ∈ (gather (loops.map step)).1) :
    ∃ loop ∈ loops, (step loop).1 = stepped := by
  rw [gather, List.map_map] at h
  exact List.mem_map.1 h

/-- The starts under the name of a job are those of its own loop. -/
theorem startsOf_gather {loops : List JobLoop} {step : JobLoop → JobLoop × JobEvents}
    (hown : ∀ loop ∈ loops, (step loop).2.OnlyOf loop.job.name)
    (hnames : loops.Pairwise (·.job.name ≠ ·.job.name)) {loop : JobLoop} (hloop : loop ∈ loops) :
    (gather (loops.map step)).2.startsOf loop.job.name =
      (step loop).2.startsOf loop.job.name := by
  have hsplit : (gather (loops.map step)).2.startsOf loop.job.name =
      loops.flatMap fun other ↦ (step other).2.startsOf loop.job.name := by
    rw [JobEvents.startsOf, starts_gather, List.flatMap_map, List.filter_flatMap, List.map_flatMap]
    rfl
  rw [hsplit]
  clear hsplit
  -- Every loop but the one that is meant is silent under its name.
  induction loops with
  | nil => cases hloop
  | cons first rest ih =>
    obtain ⟨hfirst, hrest⟩ := List.forall_mem_cons.1 hown
    obtain ⟨hnew, hnames⟩ := List.pairwise_cons.1 hnames
    rw [List.flatMap_cons]
    obtain rfl | hmem := List.mem_cons.1 hloop
    · have hothers : rest.flatMap (fun other ↦ (step other).2.startsOf loop.job.name) = [] :=
        List.flatMap_eq_nil_iff.2 fun other hother ↦
          (hrest other hother).startsOf_of_ne (hnew other hother)
      rw [hothers, List.append_nil]
    · rw [hfirst.startsOf_of_ne (hnew loop hmem).symm, List.nil_append]
      exact ih hrest hnames hmem

/-- Where every loop has stopped without starting a run, all have together. -/
theorem gather_of_stopped {loops : List JobLoop} {step : JobLoop → JobLoop × JobEvents}
    (h : ∀ loop ∈ loops, (step loop).1.phase = .stopped ∧ (step loop).2.starts = []) :
    (∀ loop ∈ (gather (loops.map step)).1, loop.phase = .stopped) ∧
      (gather (loops.map step)).2.starts = [] := by
  constructor
  · intro stopped hstopped
    obtain ⟨loop, hloop, rfl⟩ := mem_gather hstopped
    exact (h loop hloop).1
  · rw [starts_gather, List.flatMap_map]
    exact List.flatMap_eq_nil_iff.2 fun loop hloop ↦ (h loop hloop).2

/-! ### Each loop keeps to its timetable -/

/-- How a scheduler stands after some events: each loop keeps to the timetable of its job. -/
structure Keeps (scheduler : Scheduler) (runtime : Runtime) (start : Nat) (events : JobEvents)
    (running : RunningScheduler) : Prop where
  jobs_eq : running.loops.map (·.job) = scheduler.jobs
  loops : ∀ loop ∈ running.loops, loop.Keeps loop.job runtime start running.now
    (events.startsOf loop.job.name)

variable {scheduler : Scheduler} {runtime : Runtime} {start : Nat} {events : JobEvents}
variable {running : RunningScheduler}

theorem keeps_start (scheduler : Scheduler) (runtime : Runtime) (start : Nat) :
    (scheduler.start start runtime).Keeps scheduler runtime start {} where
  jobs_eq := by
    rw [Scheduler.start, List.map_map]
    exact List.map_id _
  loops loop hloop := by
    obtain ⟨job, -, rfl⟩ := List.mem_map.1 hloop
    exact JobLoop.keeps_start job runtime start

namespace Keeps

theorem names_ne (hproper : scheduler.Proper) (h : running.Keeps scheduler runtime start events) :
    running.loops.Pairwise (·.job.name ≠ ·.job.name) := by
  have hnames : ((running.loops.map (·.job)).map (·.name)).Nodup :=
    h.jobs_eq ▸ hproper.nodup_names
  rw [List.map_map] at hnames
  exact List.pairwise_map.1 hnames

theorem exists_loop (h : running.Keeps scheduler runtime start events) {job : Job}
    (hjob : job ∈ scheduler.jobs) : ∃ loop ∈ running.loops, loop.job = job :=
  List.mem_map.1 (h.jobs_eq ▸ hjob)

theorem every_pos (hproper : scheduler.Proper) (h : running.Keeps scheduler runtime start events)
    {loop : JobLoop} (hloop : loop ∈ running.loops) : 0 < loop.job.every := by
  refine hproper.every_pos loop.job ?_
  rw [← h.jobs_eq]
  exact List.mem_map_of_mem hloop

/-- If every loop for itself keeps to its timetable, they do so together. -/
theorem gather (hproper : scheduler.Proper) (h : running.Keeps scheduler runtime start events)
    {step : JobLoop → JobLoop × JobEvents} {later : Nat}
    (hown : ∀ loop ∈ running.loops, (step loop).2.OnlyOf loop.job.name)
    (hkeeps : ∀ loop ∈ running.loops, (step loop).1.Keeps loop.job runtime start later
      (events.startsOf loop.job.name ++ (step loop).2.startsOf loop.job.name)) :
    (⟨later, (RunningScheduler.gather (running.loops.map step)).1⟩ : RunningScheduler).Keeps
      scheduler runtime start (events ++ (RunningScheduler.gather (running.loops.map step)).2) where
  jobs_eq := by
    rw [← h.jobs_eq, RunningScheduler.gather, List.map_map, List.map_map]
    exact List.map_congr_left fun loop hloop ↦ (hkeeps loop hloop).job_eq
  loops stepped hstepped := by
    obtain ⟨loop, hloop, rfl⟩ := mem_gather hstepped
    rw [(hkeeps loop hloop).job_eq, JobEvents.startsOf_append,
      startsOf_gather hown (h.names_ne hproper) hloop]
    exact hkeeps loop hloop

/-- **Letting time pass keeps every loop to its timetable**, at the last moment and just after. -/
theorem advance (hruntime : runtime.Regular) (hproper : scheduler.Proper)
    (h : running.Keeps scheduler runtime start events) (millis : Nat) {later : Nat}
    (hlast : running.now + millis ≤ later) (hlater : later ≤ running.now + millis + 1) :
    ({ (running.advance millis).1 with now := later } : RunningScheduler).Keeps scheduler runtime
      start (events ++ (running.advance millis).2) := by
  have hkept : ∀ loop ∈ running.loops, JobLoop.KeptTo loop.job runtime start
      (running.now + millis) (events.startsOf loop.job.name) loop.signal
      (loop.advance running.now (running.now + millis)) := fun loop hloop ↦
    (h.loops loop hloop).advance hruntime (h.every_pos hproper hloop) (Nat.le_add_right _ _)
  exact h.gather hproper (fun loop hloop ↦ (hkept loop hloop).onlyOf)
    fun loop hloop ↦ (hkept loop hloop).keeps hlast hlater

end Keeps

/-! ### Shutting down -/

/-- When the last loop has stopped. -/
def downAt (running : RunningScheduler) : Nat :=
  ((running.loops.map (·.stop running.now)).map (·.2)).foldl max running.now

/-- Each loop stops by itself. -/
theorem shutdown_eq (running : RunningScheduler) : running.shutdown =
    (⟨running.downAt, (gather (running.loops.map fun loop ↦ (loop.stop running.now).1)).1⟩,
      (gather (running.loops.map fun loop ↦ (loop.stop running.now).1)).2) := by
  simp only [shutdown, downAt, List.map_map, Function.comp_def]

theorem le_downAt (running : RunningScheduler) {loop : JobLoop} (hloop : loop ∈ running.loops) :
    (loop.stop running.now).2 ≤ running.downAt := by
  have hmem : (loop.stop running.now).2 ∈
      (running.loops.map (·.stop running.now)).map (·.2) :=
    List.mem_map_of_mem (List.mem_map_of_mem hloop)
  rw [downAt, List.foldl_max]
  exact Nat.le_trans (List.le_max?_getD_of_mem hmem) (Nat.le_max_right _ _)

/-- **Shutting down keeps every loop to its timetable.** -/
theorem Keeps.shutdown (hproper : scheduler.Proper)
    (h : running.Keeps scheduler runtime start events) :
    running.shutdown.1.Keeps scheduler runtime start (events ++ running.shutdown.2) := by
  rw [shutdown_eq]
  refine h.gather hproper (fun loop hloop ↦ ?_) fun loop hloop ↦ ?_
  · obtain ⟨-, -, hsilent, -⟩ := (h.loops loop hloop).stop
    exact JobEvents.onlyOf_of_silent hsilent
  · obtain ⟨-, hphase, hsilent, hkeeps⟩ := (h.loops loop hloop).stop
    rw [JobEvents.startsOf_of_silent hsilent, List.append_nil]
    exact hkeeps.of_stopped hphase (running.le_downAt hloop)

/-- **No run starts while a scheduler is shut down, and then every loop has stopped.** -/
theorem Keeps.still_shutdown (h : running.Keeps scheduler runtime start events) :
    (∀ loop ∈ running.shutdown.1.loops, loop.phase = .stopped) ∧
      running.shutdown.2.starts = [] := by
  rw [shutdown_eq]
  refine gather_of_stopped fun loop hloop ↦ ?_
  obtain ⟨-, hphase, hsilent, -⟩ := (h.loops loop hloop).stop
  exact ⟨hphase, hsilent⟩

/-! ### All moves -/

/-- **Every move keeps every loop to its timetable.** -/
theorem Keeps.move (hruntime : runtime.Regular) (hproper : scheduler.Proper)
    (h : running.Keeps scheduler runtime start events) (m : Move) :
    (running.move m).1.Keeps scheduler runtime start (events ++ (running.move m).2) := by
  cases m with
  | advance millis => exact h.advance hruntime hproper millis (Nat.le_refl _) (Nat.le_succ _)
  | elapse millis =>
    cases millis with
    | zero =>
      show running.Keeps scheduler runtime start (events ++ ({} : JobEvents))
      rw [JobEvents.append_empty]
      exact h
    | succ millis => exact h.advance hruntime hproper millis (Nat.le_succ _) (Nat.le_refl _)
  | shutdown => exact h.shutdown hproper

theorem Keeps.follow (hruntime : runtime.Regular) (hproper : scheduler.Proper)
    (h : running.Keeps scheduler runtime start events) (moves : List Move) :
    (running.follow moves).1.Keeps scheduler runtime start
      (events ++ (running.follow moves).2) := by
  induction moves generalizing running events with
  | nil =>
    show running.Keeps scheduler runtime start (events ++ ({} : JobEvents))
    rw [JobEvents.append_empty]
    exact h
  | cons m rest ih =>
    have hrest := ih (h.move hruntime hproper m)
    rw [JobEvents.append_assoc] at hrest
    exact hrest

/-! ### Before and after shutting down -/

theorem quiet_start (scheduler : Scheduler) (runtime : Runtime) (start : Nat) :
    ∀ loop ∈ (scheduler.start start runtime).loops, loop.signal = .quiet := by
  intro loop hloop
  obtain ⟨job, -, rfl⟩ := List.mem_map.1 hloop
  rfl

/-- A scheduler that is not shut down leaves its loops alone. -/
theorem Keeps.quiet_move (hruntime : runtime.Regular) (hproper : scheduler.Proper)
    (h : running.Keeps scheduler runtime start events)
    (hquiet : ∀ loop ∈ running.loops, loop.signal = .quiet) {m : Move} (hm : m ≠ .shutdown) :
    ∀ loop ∈ (running.move m).1.loops, loop.signal = .quiet := by
  have hadvance : ∀ millis, ∀ loop ∈ (running.advance millis).1.loops, loop.signal = .quiet := by
    intro millis advanced hadvanced
    obtain ⟨loop, hloop, rfl⟩ := mem_gather hadvanced
    have hkept := (h.loops loop hloop).advance hruntime (h.every_pos hproper hloop)
      (Nat.le_add_right running.now millis)
    rw [hkept.signal_eq, hquiet loop hloop]
  cases m with
  | advance millis => exact hadvance millis
  | elapse millis =>
    cases millis with
    | zero => exact hquiet
    | succ millis => exact hadvance millis
  | shutdown => exact absurd rfl hm

theorem Keeps.quiet_follow (hruntime : runtime.Regular) (hproper : scheduler.Proper)
    (h : running.Keeps scheduler runtime start events)
    (hquiet : ∀ loop ∈ running.loops, loop.signal = .quiet) {moves : List Move}
    (hmoves : .shutdown ∉ moves) :
    ∀ loop ∈ (running.follow moves).1.loops, loop.signal = .quiet := by
  induction moves generalizing running events with
  | nil => exact hquiet
  | cons m rest ih =>
    obtain ⟨hm, hrest⟩ := List.ne_and_not_mem_of_not_mem_cons hmoves
    exact ih (h.move hruntime hproper m) (h.quiet_move hruntime hproper hquiet hm.symm) hrest

/-- Where all loops have stopped, nothing happens any more. -/
theorem still_move (h : ∀ loop ∈ running.loops, loop.phase = .stopped) (m : Move) :
    (∀ loop ∈ (running.move m).1.loops, loop.phase = .stopped) ∧
      (running.move m).2.starts = [] := by
  have hadvance : ∀ millis, (∀ loop ∈ (running.advance millis).1.loops, loop.phase = .stopped) ∧
      (running.advance millis).2.starts = [] := by
    intro millis
    refine gather_of_stopped fun loop hloop ↦ ?_
    rw [JobLoop.advance_of_stopped (h loop hloop)]
    exact ⟨h loop hloop, rfl⟩
  cases m with
  | advance millis => exact hadvance millis
  | elapse millis =>
    cases millis with
    | zero => exact ⟨h, rfl⟩
    | succ millis => exact hadvance millis
  | shutdown =>
    show (∀ loop ∈ running.shutdown.1.loops, loop.phase = .stopped) ∧
      running.shutdown.2.starts = []
    rw [shutdown_eq]
    refine gather_of_stopped fun loop hloop ↦ ?_
    rw [JobLoop.stop_of_stopped (h loop hloop)]
    exact ⟨h loop hloop, rfl⟩

theorem still_follow (h : ∀ loop ∈ running.loops, loop.phase = .stopped) (moves : List Move) :
    (running.follow moves).2.starts = [] := by
  induction moves generalizing running with
  | nil => rfl
  | cons m rest ih =>
    obtain ⟨hstopped, hsilent⟩ := still_move h m
    show (running.move m).2.starts ++ ((running.move m).1.follow rest).2.starts = []
    rw [hsilent, ih hstopped, List.append_nil]

end RunningScheduler

namespace Scheduler

open RunningScheduler

/-- What is promised of the jobs of a scheduler that was started at a time and has come to a state
through some moves. -/
structure KeepsTime (scheduler : Scheduler) (start : Nat) (moves : List Move)
    (reached : RunningScheduler × JobEvents) : Prop where
  /-- Runs of one job do not overlap, none comes before its turn, and each has its reason. -/
  timely : ∀ job ∈ scheduler.jobs, job.Timely start (reached.2.startsOf job.name)
  /-- The runs have started by now. -/
  past : ∀ job ∈ scheduler.jobs, ∀ time ∈ reached.2.startsOf job.name, time ≤ reached.1.now
  /-- Runs follow each other, whether they fail or not, as long as nobody shuts down. -/
  goesOn : .shutdown ∉ moves → ∀ job ∈ scheduler.jobs,
    job.GoesOn start reached.1.now (reached.2.startsOf job.name)
  /-- From shutting down on, nothing starts. -/
  silent : ∀ after, (reached.1.follow (.shutdown :: after)).2.starts = []
  /-- Shutting down takes until every run that has started has ended. -/
  awaits : ∀ job ∈ scheduler.jobs, ∀ k time, (reached.2.startsOf job.name)[k]? = some time →
    time + (job.run k).duration ≤ reached.1.shutdown.1.now

/-- **Jobs neither overlap nor run too often, go on, and are done when the scheduler has been shut
down.** -/
theorem Registered.keepsTime {scheduler : Scheduler} (hscheduler : scheduler.Registered)
    {runtime : Runtime} (hruntime : runtime.Regular) (start : Nat) (moves : List Move) :
    scheduler.KeepsTime start moves ((scheduler.start start runtime).follow moves) := by
  have hproper := hscheduler.proper
  have hstart := RunningScheduler.keeps_start scheduler runtime start
  have hkeeps := hstart.follow hruntime hproper moves
  generalize hreached : (scheduler.start start runtime).follow moves = reached at hkeeps ⊢
  obtain ⟨running, events⟩ := reached
  have hkeeps : running.Keeps scheduler runtime start events := hkeeps
  obtain ⟨hstopped, hsilent⟩ := hkeeps.still_shutdown
  constructor
  · intro job hjob
    obtain ⟨loop, hloop, rfl⟩ := hkeeps.exists_loop hjob
    rw [(hkeeps.loops loop hloop).starts_eq]
    exact Job.timely_timetable hruntime (hproper.every_pos _ hjob) start loop.runs
  · intro job hjob
    obtain ⟨loop, hloop, rfl⟩ := hkeeps.exists_loop hjob
    exact (hkeeps.loops loop hloop).past
  · intro hmoves job hjob
    obtain ⟨loop, hloop, rfl⟩ := hkeeps.exists_loop hjob
    -- Nobody has told the loop to stop, so it is not behind.
    have hquiet := hstart.quiet_follow hruntime hproper (quiet_start scheduler runtime start) hmoves
    rw [hreached] at hquiet
    rw [(hkeeps.loops loop hloop).starts_eq]
    exact Job.goesOn_timetable hruntime (hproper.every_pos _ hjob)
      ((hkeeps.loops loop hloop).le_starts (hquiet loop hloop))
  · intro after
    show running.shutdown.2.starts ++ (running.shutdown.1.follow after).2.starts = []
    rw [hsilent, still_follow hstopped, List.append_nil]
  · intro job hjob k time htime
    -- The starts are those from before, and the loop that made them has stopped.
    have hdown := hkeeps.shutdown hproper
    obtain ⟨loop, hloop, rfl⟩ := hdown.exists_loop hjob
    refine (hdown.loops loop hloop).ends_le (hstopped loop hloop) ?_
    rw [JobEvents.startsOf_append, JobEvents.startsOf_of_silent hsilent, List.append_nil]
    exact htime

/-- A job whose first run takes longer than its interval. -/
def lateJob : Job := ⟨"late", 20, fun k ↦ ⟨if k = 0 then 50 else 5, .ok ()⟩⟩

/-- A job that always fails. -/
def flakyJob : Job := ⟨"flaky", 30, fun _ ↦ ⟨1, .error ⟨.storage, "database unavailable"⟩⟩⟩

/-- The job that is late catches up, the one that fails goes on, and the run in progress is waited
for. -/
theorem Registered.keepsTime_busy : let busy : Scheduler := ⟨[lateJob, flakyJob]⟩
    busy.Registered ∧ ({} : Runtime).Regular ∧
      busy.KeepsTime 0 [.advance 100] ((busy.start 0).follow [.advance 100]) ∧
      ((busy.start 0).follow [.advance 100]).2.startsOf "late" = [20, 70, 80, 100] ∧
      ((busy.start 0).follow [.advance 100]).2.startsOf "flaky" = [30, 60, 90] ∧
      ((busy.start 0).follow [.advance 100]).1.shutdown.1.now = 105 := by
  have hlate : ({} : Scheduler).register lateJob = .ok ⟨[lateJob]⟩ := by rfl
  have hflaky : (⟨[lateJob]⟩ : Scheduler).register flakyJob = .ok ⟨[lateJob, flakyJob]⟩ := by rfl
  have hbusy : (⟨[lateJob, flakyJob]⟩ : Scheduler).Registered :=
    .register (.register .empty hlate) hflaky
  exact ⟨hbusy, Runtime.regular_default, hbusy.keepsTime Runtime.regular_default 0 _,
    by decide, by decide, by decide⟩

end Scheduler

end Licensing
