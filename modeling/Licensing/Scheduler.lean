import Licensing.Program

/-!
# The scheduler

Jobs that run again and again at their intervals. Each job has a loop of its own: it waits for its
next tick, runs, and waits again. Ticks fall on multiples of the interval after the start; the
first of them, at the start itself, runs nothing. A tick that comes while the job still runs is
taken as soon as the run ends.

While it waits, a loop listens for the signal of the one who holds the scheduler. The signal says
that the loop shall stop, or it comes because the scheduler was let go of (`abandon`), so that
nobody is left who could say anything. Where a tick and the signal are there at the same time, the
loop may take either. Having taken a tick, it runs its job only if it was not told to stop; having
taken the signal, it stops. A loop that runs hears nothing until its run ends.

What the runtime decides is a `Runtime`: when an interval ticks again, and which of two branches is
taken. Time is counted in milliseconds.
-/

namespace Licensing

/-- One run of a job: how long it takes and how it ends. -/
structure JobRun where
  duration : Nat
  result : Except Failure Unit

/-- A job: its name, its interval, and its runs, one after the other. -/
structure Job where
  name : String
  every : Nat
  run : Nat → JobRun

/-! ### Registering -/

/-- The jobs that are registered, in the order of their registration. -/
structure Scheduler where
  jobs : List Job := []

namespace Scheduler

/-- The names of the jobs. -/
def names (scheduler : Scheduler) : List String := scheduler.jobs.map (·.name)

/-- The job of a name. -/
def find? (scheduler : Scheduler) (name : String) : Option Job :=
  scheduler.jobs.find? (·.name == name)

/-- Adds a job. Its interval must not be zero and its name must be new. -/
def register (scheduler : Scheduler) (job : Job) : Except Failure Scheduler :=
  if job.every = 0 then .error (.zeroInterval job.name)
  else if scheduler.names.contains job.name then .error (.jobRegistered job.name)
  else .ok ⟨scheduler.jobs ++ [job]⟩

/-- The first run of the job of a name, apart from its schedule. -/
def runNow (scheduler : Scheduler) (name : String) : Except Failure JobRun :=
  match scheduler.find? name with
  | some job => .ok (job.run 0)
  | none => .error (.jobNotRegistered name)

end Scheduler

/-! ### The runtime -/

/-- By how much a tick may be taken late and still count as taken in time. -/
def tickGrace : Nat := 5

/-- The tick after one that was due at `due` and taken at `now`. If it was taken late, the ticks
that were missed are skipped, and the next one is the first that is still to come. -/
def skipMissed (every due now : Nat) : Nat :=
  if due + tickGrace < now then now + every - (now - due) % every else due + every

/-- What a loop that waits may take: its tick, or the signal. -/
inductive Branch
  | tick
  | signal
  deriving DecidableEq

/-- What the runtime decides: the tick after one that was due at a time and taken at a time, and
which branch the loop of a job takes after so many runs, if both are there. -/
structure Runtime where
  nextTick (every due now : Nat) : Nat := skipMissed every due now
  choice (job : String) (runs : Nat) : Branch := .signal

/-! ### Events -/

/-- What happened in a scheduler: the starts of runs, with their time and the name of their job,
and the log. -/
structure JobEvents where
  starts : List (Nat × String) := []
  log : List LogEntry := []

namespace JobEvents

/-- First one, then the other. -/
def append (a b : JobEvents) : JobEvents := ⟨a.starts ++ b.starts, a.log ++ b.log⟩

instance : Append JobEvents := ⟨append⟩

end JobEvents

/-- What the log tells of a run that failed. -/
def jobFailed (job : String) (failure : Failure) : LogEntry :=
  ⟨.error, "Scheduled job failed", [("job", job), ("error", failure.message)]⟩

/-- What happens as a run ends. -/
def JobRun.events (run : JobRun) (job : String) : JobEvents :=
  match run.result with
  | .ok () => {}
  | .error failure => ⟨[], [jobFailed job failure]⟩

/-! ### Loops -/

/-- What a loop hears: nothing so far, that it shall stop, or that nobody is left to tell it so. -/
inductive Signal
  | quiet
  | stop
  | gone
  deriving DecidableEq

/-- What a loop is at: it waits, it runs its job up to a time, or it has stopped. -/
inductive Phase
  | waiting
  | running (ending : Nat)
  | stopped
  deriving DecidableEq

/-- The loop of a job: when its next tick is due, how often it has run, what it is at, and what it
hears when it listens. -/
structure JobLoop where
  job : Job
  runtime : Runtime
  due : Nat
  runs : Nat := 0
  phase : Phase := .waiting
  signal : Signal := .quiet

namespace JobLoop

/-- The loop of a job at the start of the scheduler. The first tick is taken at once. -/
def start (runtime : Runtime) (now : Nat) (job : Job) : JobLoop :=
  { job, runtime, due := now + job.every }

/-- Takes the tick that is due and starts a run. -/
def begin (loop : JobLoop) (now : Nat) : JobLoop × JobEvents :=
  ({ loop with
      due := loop.runtime.nextTick loop.job.every loop.due now
      runs := loop.runs + 1
      phase := .running (now + (loop.job.run loop.runs).duration) },
    ⟨[(now, loop.job.name)], []⟩)

/-- Ends the run in progress, and waits again. -/
def finish (loop : JobLoop) : JobLoop × JobEvents :=
  ({ loop with phase := .waiting }, (loop.job.run (loop.runs - 1)).events loop.job.name)

/-- Ends the loop. -/
def leave (loop : JobLoop) : JobLoop × JobEvents := ({ loop with phase := .stopped }, {})

/-- Which branch a loop that waits at `now` takes, and when, if it takes one up to a last moment. -/
def select (loop : JobLoop) (now last : Nat) : Option (Nat × Branch) :=
  match loop.signal with
  | .quiet => if max now loop.due ≤ last then some (max now loop.due, .tick) else none
  | .stop | .gone =>
    some (now, if loop.due ≤ now then loop.runtime.choice loop.job.name loop.runs else .signal)

/-- What a loop does after it took a branch. -/
def follow (loop : JobLoop) (now : Nat) : Branch → JobLoop × JobEvents
  | .tick => if loop.signal = .stop then loop.leave else loop.begin now
  | .signal => loop.leave

/-- What a loop does next after `now`, and when, if it does something up to a last moment. -/
def next (loop : JobLoop) (now last : Nat) : Option (Nat × JobLoop × JobEvents) :=
  match loop.phase with
  | .waiting => (loop.select now last).map fun (time, branch) ↦ (time, loop.follow time branch)
  | .running ending => if ending ≤ last then some (ending, loop.finish) else none
  | .stopped => none

/-- What a loop does up to a last moment, in at most so many steps. -/
def run : Nat → Nat → Nat → JobLoop → JobLoop × JobEvents
  | 0, _, _, loop => (loop, {})
  | steps + 1, now, last, loop =>
    match loop.next now last with
    | none => (loop, {})
    | some (time, loop, events) =>
      let (loop, more) := run steps time last loop
      (loop, events ++ more)

/-- How many steps there can be up to a last moment: two for each run, and the runs take ticks that
are at least one millisecond apart. -/
def steps (loop : JobLoop) (last : Nat) : Nat := 2 * (last + 1 - loop.due) + 2

/-- Lets time pass from `now` to `last`. -/
def advance (loop : JobLoop) (now last : Nat) : JobLoop × JobEvents :=
  run (loop.steps last) now last loop

/-- Lets the loop hear a signal when it listens next. -/
def hear (loop : JobLoop) (signal : Signal) : JobLoop := { loop with signal }

/-- When a loop that listens no earlier than `now` has ended the run in progress, if one is. -/
def idleAt (loop : JobLoop) (now : Nat) : Nat :=
  match loop.phase with
  | .running ending => max now ending
  | .waiting | .stopped => now

/-- Tells the loop to stop, and waits for that; when it has stopped. -/
def stop (loop : JobLoop) (now : Nat) : (JobLoop × JobEvents) × Nat :=
  ((loop.hear .stop).advance now (loop.idleAt now), loop.idleAt now)

end JobLoop

/-! ### Running -/

/-- A scheduler that was started. -/
structure RunningScheduler where
  now : Nat
  loops : List JobLoop

/-- Starts the loops. -/
def Scheduler.start (scheduler : Scheduler) (now : Nat) (runtime : Runtime := {}) :
    RunningScheduler :=
  ⟨now, scheduler.jobs.map (JobLoop.start runtime now)⟩

namespace RunningScheduler

/-- What the loops have come to, and all that happened in them. -/
def gather (results : List (JobLoop × JobEvents)) : List JobLoop × JobEvents :=
  (results.map (·.1), results.foldl (fun events result ↦ events ++ result.2) {})

/-- Lets time pass. What is due at the last moment happens. -/
def advance (running : RunningScheduler) (millis : Nat) : RunningScheduler × JobEvents :=
  let last := running.now + millis
  let (loops, events) := gather (running.loops.map (·.advance running.now last))
  (⟨last, loops⟩, events)

/-- Lets go of the scheduler without waiting for anything. -/
def abandon (running : RunningScheduler) : RunningScheduler :=
  { running with loops := running.loops.map (·.hear .gone) }

/-- Tells all loops to stop, and waits until the last of them has. -/
def shutdown (running : RunningScheduler) : RunningScheduler × JobEvents :=
  let results := running.loops.map (·.stop running.now)
  let (loops, events) := gather (results.map (·.1))
  (⟨(results.map (·.2)).foldl max running.now, loops⟩, events)

end RunningScheduler

end Licensing
