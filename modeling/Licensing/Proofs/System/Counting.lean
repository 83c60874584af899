import Mathlib.Algebra.Ring.Nat
import Licensing.Proofs.System.Turns

/-!
# What is counted

A counter grows by what its turns add to it. `Turn.counted` reads that off the turns of a program,
whoever else is at work, and in a world the counter itself tells the same
(`World.count_metrics_run`). A task that finds no room is the one thing that the background counts
by itself, so the counters of dropped tasks are left out.

Turns that all spare a counter leave it alone (`Turn.counted_of_spares`).
-/

namespace Licensing

/-! ### Turns -/

/-- What a turn adds to a counter. -/
def Turn.amount (counter : Counter) : Turn → Nat
  | ⟨.count other amount, _⟩ => if counter = other then amount else 0
  | _ => 0

/-- What turns add to a counter, all together. -/
def Turn.counted (counter : Counter) (turns : List Turn) : Nat :=
  (turns.map (amount counter)).sum

namespace Turn

variable {counter : Counter}

@[simp] theorem counted_nil : counted counter [] = 0 := rfl

@[simp] theorem counted_cons (turn : Turn) (turns : List Turn) :
    counted counter (turn :: turns) = turn.amount counter + counted counter turns := by
  simp [counted]

@[simp] theorem counted_append (turns more : List Turn) :
    counted counter (turns ++ more) = counted counter turns + counted counter more := by
  simp [counted]

end Turn

/-- The effect adds nothing to a counter. -/
def Effect.Spares (counter : Counter) : Effect → Prop
  | .count other _ => counter ≠ other
  | _ => True

theorem Effect.Spares.amount_eq {counter : Counter} {effect : Effect} (h : effect.Spares counter)
    (answer : effect.Answer) : Turn.amount counter ⟨effect, answer⟩ = 0 := by
  cases effect with
  | count => exact if_neg h
  | _ => rfl

/-- Where every turn spares a counter, nothing is added to it. -/
theorem Turn.counted_of_spares {counter : Counter} {turns : List Turn}
    (h : ∀ turn ∈ turns, turn.1.Spares counter) : counted counter turns = 0 := by
  induction turns with
  | nil => rfl
  | cons turn turns ih =>
    obtain ⟨hturn, hturns⟩ := List.forall_mem_cons.1 h
    rw [counted_cons, hturn.amount_eq turn.2, ih hturns]

/-! ### Worlds -/

namespace World

variable {α : Type} {counter : Counter}

/-- No call counts anything. -/
theorem metrics_settle? (call : StoreCall) (world : World) :
    (world.settle? call).2.metrics = world.metrics := by
  unfold settle? reach
  rcases strike call world.outages with - | ⟨outage, outages⟩
  · rcases cannedPage? call world.cannedPages with - | ⟨page, pages⟩
    · rcases world.backend with - | - <;> rfl
    · rfl
  · rfl

/-- A task that is submitted is counted only where it is dropped. -/
theorem count_metrics_submitted (hother : ∀ task, counter ≠ .droppedTasks task) (task : Task)
    (world : World) : (world.submitted task).metrics.count counter =
      world.metrics.count counter := by
  unfold submitted
  dsimp only
  split
  · rfl
  · show (world.metrics.record (.droppedTasks task.name) 1).count counter = _
    rw [Metrics.count_record, if_neg (hother task.name), Nat.add_zero]

/-- One effect adds to a counter what its turn does. -/
theorem count_metrics_perform (hother : ∀ task, counter ≠ .droppedTasks task) (effect : Effect)
    (world : World) : (world.perform effect).2.metrics.count counter =
      world.metrics.count counter + Turn.amount counter ⟨effect, (world.perform effect).1⟩ := by
  cases effect with
  | store call => exact congrArg (Tally.count · counter) (metrics_settle? call _)
  | submit task => exact count_metrics_submitted hother task world
  | count other amount => exact Metrics.count_record world.metrics other counter amount
  | drawKey format =>
    unfold perform
    dsimp only
    cases GeneratedKey.generate? format world.random <;> rfl
  | clock | freshId | log => rfl

/-- **A run adds to a counter what its turns do.** -/
theorem count_metrics_run (hother : ∀ task, counter ≠ .droppedTasks task) (p : Program α)
    (world : World) : (run p world).2.metrics.count counter =
      world.metrics.count counter + Turn.counted counter (turns p world) := by
  induction p generalizing world with
  | done value => rfl
  | act effect next ih =>
    have hrest := ih (world.perform effect).1 (world.perform effect).2
    rw [count_metrics_perform hother, Nat.add_assoc, ← Turn.counted_cons] at hrest
    exact hrest

end World

end Licensing
