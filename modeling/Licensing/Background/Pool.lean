import Licensing.Background.Entries
import Licensing.Powers
import Licensing.Time.Instant

/-!
# The pool of background tasks

A pool runs a bounded number of tasks at a time. It has a permit for each of them; a task takes one
when it is handed in and gives it back when it ends, in whatever way. One that finds no permit is
dropped and counted. Every task has a time that it may take at most. Time is counted in milliseconds
and passes only where the pool is told so (`advance`, `drain`). Tasks do not depend on each other,
except that a task may wait for its name to be called (`release`); calls that find nobody waiting
are kept.

`drain` waits until as many permits are free as it asks for: the capacity, of which it keeps the
low 32 bits.
-/

namespace Licensing.Background

/-- What a task waits for before it ends: nothing, a time to pass, or its name to be called. -/
inductive Pause
  | none
  | sleep (millis : Nat)
  | call
  deriving DecidableEq

/-- What a task does: it waits, and then ends well or with a failure. -/
structure Work where
  pause : Pause
  failure : Option Failure := none

namespace Work

/-- Ends well at once. -/
def succeed : Work := { pause := .none }

/-- Fails at once. -/
def fail (failure : Failure) : Work := { pause := .none, failure }

/-- Takes a time. -/
def sleep (millis : Nat) : Work := { pause := .sleep millis }

/-- Waits to be called. -/
def wait : Work := { pause := .call }

end Work

/-- A task that runs: when it is given up, when it ends by itself, if it does, and what it then
fails with, if it does. -/
structure Running where
  name : String
  timeout : Nat
  deadline : Nat
  wakes : Option Nat
  failure : Option Failure := none
  deriving DecidableEq

namespace Running

/-- When the task ends, one way or the other. -/
def endsAt (task : Running) : Nat := min task.deadline (task.wakes.getD task.deadline)

/-- Whether the task ends by itself; it does also at the very moment at which it would be given
up. -/
def endsItself (task : Running) : Bool := task.wakes.any (· ≤ task.deadline)

/-- The name of a task that ends well; nothing for others. -/
def wellEnded (task : Running) : List String :=
  if task.endsItself && task.failure.isNone then [task.name] else []

/-- What the log tells of the end of a task. -/
def entries (task : Running) : List LogEntry :=
  if task.endsItself then (task.failure.map (failed task.name)).toList
  else [timedOut task.name task.timeout]

end Running

/-- A pool: the capacity asked for, the permits that are free, the time, what runs, the names that
were called while nobody waited, and what was seen so far: the names of tasks that ended well, how
often tasks of a name were dropped (its counter `background_tasks_dropped_total`), and the log. -/
structure Pool where
  capacity : Nat
  permits : Nat := room capacity
  now : Nat := 0
  running : List Running := []
  called : List String := []
  ended : List String := []
  dropped : Tally String := .empty
  log : List LogEntry := []

namespace Pool

/-- How many tasks are in flight, told by the permits. -/
def inFlight (pool : Pool) : Nat := room pool.capacity - pool.permits

/-- Ends a task. -/
def finish (pool : Pool) (task : Running) : Pool :=
  { pool with
    permits := pool.permits + 1
    ended := pool.ended ++ task.wellEnded
    log := pool.log ++ task.entries }

/-- The tasks that end at a time that `isDue` holds of, in the order of time. -/
def due (pool : Pool) (isDue : Nat → Bool) : List Running :=
  (pool.running.filter (isDue ·.endsAt)).mergeSort fun a b ↦ a.endsAt ≤ b.endsAt

/-- Ends all tasks that are due. -/
def finishAll (pool : Pool) (isDue : Nat → Bool) : Pool :=
  (pool.due isDue).foldl finish { pool with running := pool.running.filter (!isDue ·.endsAt) }

/-- Lets everything run that has nothing to wait for. -/
def settle (pool : Pool) : Pool := pool.finishAll (· ≤ pool.now)

/-- A task as it starts, before it has run. -/
def start (pool : Pool) (name : String) (work : Work) (timeout : Nat) : Running where
  name := name
  timeout := timeout
  deadline := pool.now + timeout
  wakes := match work.pause with
    | .none => some pool.now
    | .sleep millis => some (pool.now + millis)
    | .call => if pool.called.contains name then some pool.now else none
  failure := work.failure

/-- Hands a task in; whether there was a permit for it. -/
def submit (pool : Pool) (name : String) (work : Work) (timeout : Nat) : Bool × Pool :=
  match pool.permits with
  | 0 =>
    (false, { pool with
      dropped := pool.dropped.add name
      log := pool.log ++ [saturated name (room pool.capacity)] })
  | permits + 1 =>
    (true, { pool with
      permits
      running := pool.running ++ [pool.start name work timeout]
      called := if work.pause = .call then pool.called.erase name else pool.called })

/-- Wakes the first task of a name that waits. -/
def wake (name : String) (now : Nat) : List Running → Option (List Running)
  | [] => none
  | task :: rest =>
    if task.name = name && task.wakes = none then some ({ task with wakes := some now } :: rest)
    else (wake name now rest).map (task :: ·)

/-- Calls a name. -/
def release (pool : Pool) (name : String) : Pool :=
  match wake name pool.now pool.running with
  | some running => { pool with running }
  | none => { pool with called := pool.called ++ [name] }

/-- Lets time pass; what ends at the last moment is still to run. -/
def advance (pool : Pool) (millis : Nat) : Pool :=
  let now := pool.now + millis
  { pool.finishAll (· < now) with now }

/-- How many permits draining asks for. -/
def drainAsks (pool : Pool) : Nat := room pool.capacity % twoTo 32

/-- How many tasks have to end before draining is over. -/
def drainAwaits (pool : Pool) : Nat := pool.drainAsks - pool.permits

/-- Waits for tasks to end; how long that took. -/
def drain (pool : Pool) : Nat × Pool :=
  match pool.drainAwaits with
  | 0 => (0, pool)
  | awaited + 1 =>
    let times := (pool.running.map Running.endsAt).mergeSort
    let now := max pool.now (times.getD awaited pool.now)
    (now - pool.now, { pool.finishAll (· ≤ now) with now })

end Pool

end Licensing.Background
