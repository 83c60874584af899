import Licensing.Background.Entries
import Licensing.License.Sweep
import Licensing.Stores

/-!
# The world of a running service

The meaning of programs. A world holds the two stores, the clock, what is left to draw, the tasks
in the background, the counters and the log. `World.perform` gives each effect its answer and the
world after it; `World.run` runs a whole program.

The stores can be made to misbehave: outages make calls fail or never answer, canned pages stand
in for listings, and a backend whose pool is closed refuses every call. Background writes can be
held up, so that tasks wait at their first call until they are let go or time out.
-/

namespace Licensing

/-! ### The background -/

/-- How long tasks may take, in milliseconds. -/
structure TaskTimeouts where
  expire : Nat
  enrich : Nat
  noteUse : Nat

/-- How long a task may take. -/
def TaskTimeouts.ofTask (timeouts : TaskTimeouts) : Task → Nat
  | .expire _ => timeouts.expire
  | .enrich _ _ => timeouts.enrich
  | .noteUse _ => timeouts.noteUse

/-- A task in the background: what is left of it, when it times out, and whether it has made a
call that waits. -/
structure InFlight where
  task : Task
  timeout : Nat
  deadline : Nat
  rest : Operation Unit
  waiting : Bool

/-! ### The world -/

/-- A running service and everything around it. -/
structure World where
  backend : Backend := .memory
  capacity : Nat := 256
  timeouts : TaskTimeouts := ⟨15000, 15000, 5000⟩
  now : Instant
  elapsed : Nat := 0
  stores : Stores := .empty
  idsDrawn : Nat := 0
  random : List UInt8 := []
  keysDrawn : List GeneratedKey := []
  outages : List Outage := []
  cannedPages : List Page := []
  held : Bool := false
  inFlight : List InFlight := []
  metrics : Metrics := .empty
  log : List LogEntry := []
  trace : List StoreCall := []

namespace World

/-- The identifier drawn at a count: version and variant of a random one, the count in its last
group. -/
def drawnId (n : Nat) : Uuid := ⟨BitVec.ofNat 128 (0x40008000000000000000 + n)⟩

/-- Adds an entry to the log. -/
def logged (world : World) (entry : LogEntry) : World := { world with log := world.log ++ [entry] }

/-- Adds to a counter. -/
def counted (world : World) (counter : Counter) (amount : Nat) : World :=
  { world with metrics := world.metrics.record counter amount }

/-- Notes that a call is made. -/
def traced (world : World) (call : StoreCall) : World :=
  { world with trace := world.trace ++ [call] }

/-- The first outage that affects a call, and the outages after it. -/
def strike (call : StoreCall) : List Outage → Option (Outage × List Outage)
  | [] => none
  | outage :: rest =>
    if outage.affects call then some (outage, outage.spent :: rest)
    else (strike call rest).map fun (struck, rest) ↦ (struck, outage :: rest)

/-- The next canned page, for a listing. -/
def cannedPage? : (call : StoreCall) → List Page → Option (call.Answer × List Page)
  | .list _, page :: rest => some (page, rest)
  | _, _ => none

/-- The answer that a call gets from whatever stands behind the stores. -/
def reach (world : World) (call : StoreCall) : Except Failure call.Answer × World :=
  match cannedPage? call world.cannedPages with
  | some (page, rest) => (.ok page, { world with cannedPages := rest })
  | none =>
    match world.backend with
    | .closedPool => (.error (.closedPool call.attempt), world)
    | .memory =>
      let (answer, stores) := world.stores.answer world.now call
      (answer, { world with stores })

/-- The answer to a call, or none if it never comes. -/
def settle? (world : World) (call : StoreCall) : Option (Except Failure call.Answer) × World :=
  match strike call world.outages with
  | some (outage, outages) =>
    (outage.failure.map .error, { world with outages })
  | none =>
    let (answer, world) := world.reach call
    (some answer, world)

/-- The failure of a caller that waits for an answer that never comes. -/
def noAnswer : Failure := ⟨.internal, "no answer"⟩

/-- Hands a task to the background. One that finds no room is dropped, counted and logged. -/
def submitted (world : World) (task : Task) : World :=
  let room := Background.room world.capacity
  if world.inFlight.length < room then
    let timeout := world.timeouts.ofTask task
    { world with inFlight :=
        world.inFlight ++ [⟨task, timeout, world.elapsed + timeout, task.program, false⟩] }
  else
    (world.counted (.droppedTasks task.name) 1).logged
      (Background.saturated task.name room)

/-- The answer to an effect and the world after it. -/
def perform (world : World) : (effect : Effect) → effect.Answer × World
  | .store call =>
    let (answer, world) := (world.traced call).settle? call
    (answer.getD (.error noAnswer), world)
  | .clock => (world.now, world)
  | .freshId => (drawnId (world.idsDrawn + 1), { world with idsDrawn := world.idsDrawn + 1 })
  | .drawKey format =>
    match GeneratedKey.generate? format world.random with
    | some (key, random) =>
      (some key, { world with random, keysDrawn := world.keysDrawn ++ [key] })
    | none => (none, world)
  | .submit task => ((), world.submitted task)
  | .count counter amount => ((), world.counted counter amount)
  | .log entry => ((), world.logged entry)

/-- Runs a program to its end. -/
def run {α : Type} : Program α → World → α × World
  | .done value, world => (value, world)
  | .act effect next, world =>
    let (answer, world) := world.perform effect
    run (next answer) world

theorem run_bind {α β : Type} (p : Program α) (f : α → Program β) (world : World) :
    run (p >>= f) world = run (f (run p world).1) (run p world).2 := by
  induction p generalizing world with
  | done value => rfl
  | act effect next ih => exact ih _ _

/-! ### Tasks -/

/-- Runs a task until it ends, or until a call that never answers. With `made`, the first call was
made before and waited. -/
def runTask : Operation Unit → Bool → World → Option (Except Failure Unit) × World
  | .done result, _, world => (some result, world)
  | .act (.store call) next, made, world =>
    let world := if made then world else world.traced call
    match world.settle? call with
    | (some answer, world) => runTask (next answer) false world
    | (none, world) => (none, world)
  | .act effect next, made, world =>
    let (answer, world) := world.perform effect
    runTask (next answer) made world

/-- Runs a task until it has made a call and waits for the answer; what is left of it. -/
def startTask : Operation Unit → World → Operation Unit × World
  | .done result, world => (.done result, world)
  | .act (.store call) next, world => (.act (.store call) next, world.traced call)
  | .act effect next, world =>
    let (answer, world) := world.perform effect
    startTask (next answer) world

/-- Ends a task: a failure is logged. -/
def finishTask (task : Task) (result : Except Failure Unit) (world : World) : World :=
  match result with
  | .ok () => world
  | .error failure => world.logged (Background.failed task.name failure)

/-- Lets time pass: tasks that wait longer than they may are given up, in the order of their
deadlines. -/
def pass (world : World) (millis : Nat) : World :=
  let elapsed := world.elapsed + millis
  let (late, rest) := world.inFlight.partition (·.deadline ≤ elapsed)
  let late := late.mergeSort fun a b ↦ a.deadline ≤ b.deadline
  { world with
    elapsed
    inFlight := rest
    log := world.log ++ late.map fun task ↦ Background.timedOut task.task.name task.timeout }

/-- Runs a task on to its end. One that never gets an answer stays in the background. -/
def runOne (world : World) (task : InFlight) : World :=
  match runTask task.rest task.waiting world with
  | (some result, world) => world.finishTask task.task result
  | (none, world) => { world with inFlight := world.inFlight ++ [task] }

private def startOne (world : World) (task : InFlight) : World :=
  if task.waiting then { world with inFlight := world.inFlight ++ [task] }
  else
    let (rest, world) := startTask task.rest world
    { world with inFlight := world.inFlight ++ [{ task with rest, waiting := true }] }

/-- Lets the background work: every task runs to its end, and those that never get an answer time
out. While writes are held, each task is only brought to its first call. -/
def background (world : World) : World :=
  let tasks := world.inFlight
  let cleared := { world with inFlight := [] }
  if world.held then tasks.foldl startOne cleared
  else
    let world := tasks.foldl runOne cleared
    world.pass (world.inFlight.foldl (fun most task ↦ max most (task.deadline - world.elapsed)) 0)

/-- Holds up background writes from now on. -/
def hold (world : World) : World := { world with held := true }

/-- Lets background writes go, in the order in which they were made. -/
def release (world : World) : World := { world with held := false }

/-! ### Sweeps -/

/-- Runs a sweep. Every full page that is not the last moves the offset on or expires a license,
so the pages are no more than the licenses and the canned pages together, and a last one. -/
def sweep (world : World) (sizes : Sweep.PageSizes) (trigger : Sweep.Trigger) :
    Except Failure (Option Sweep.Report) × World :=
  let most := world.stores.licenses.licenses.length + world.cannedPages.length + 2
  run (Sweep.pass most (sizes.ofTrigger trigger) trigger) world

/-! ### Keys -/

/-- The keys drawn so far that are in the store. -/
def keysIssued (world : World) : List GeneratedKey :=
  world.keysDrawn.filter fun key ↦ world.stores.keys.keys.any (·.hash = key.hash)

end World

end Licensing
