import Licensing.Proofs.System.Course
import Licensing.World

/-!
# Runs of the world as courses

`World.run` gives programs their meaning one at a time. What is proved of programs among other
programs is about the same runs: a world without canned pages is a system (`World.system`), what its
outages, its backend and its supply of random bytes do to an effect is chance (`World.chance`), and
so its run of a program is the program watched on a course where nobody else does anything
(`World.watch_run`).

Canned pages have no place in a system. They stand in for listings that no store would give.

`World.watch_run` is an induction on the program, and its step is that one effect is performed alike
(`perform_eq`). With it a claim that is proved for all courses holds of every world, and a world in
which something happens is an example of a course.
-/

namespace Licensing.World

variable {α : Type}

/-- What a world shares among programs. -/
def shared (world : World) : Shared := ⟨world.stores, world.now⟩

/-- The world as a system: its tasks in the background are the jobs. -/
def system (world : World) : System := ⟨world.shared, world.inFlight.map (·.rest.job)⟩

/-- What goes wrong with a call: an outage, where one that gives no answer is as good as a failure,
or a backend that refuses it. -/
def failure? (world : World) (call : StoreCall) : Option Failure :=
  match strike call world.outages with
  | some (outage, _) => some (outage.failure.getD noAnswer)
  | none =>
    match world.backend with
    | .closedPool => some (.closedPool call.attempt)
    | .memory => none

/-- What the world decides about an effect. -/
def chance (world : World) (effect : Effect) : Chance where
  failure := match effect with
    | .store call => world.failure? call
    | _ => none
  id := drawnId (world.idsDrawn + 1)
  random := world.random
  room := world.inFlight.length < Background.room world.capacity

/-- What the world decides about the effects of a program, one after another. -/
def chances : Program α → World → Nat → Chance
  | .done _, _, _ => {}
  | .act effect _, world, 0 => world.chance effect
  | .act effect next, world, k + 1 =>
    chances (next (world.perform effect).1) (world.perform effect).2 k

/-! ### One effect -/

theorem cannedPage?_nil (call : StoreCall) : cannedPage? call [] = none := by
  cases call <;> rfl

/-- A call gets the answer of the stores, unless something goes wrong. -/
theorem settle?_eq {world : World} (hpages : world.cannedPages = []) (call : StoreCall) :
    ((world.settle? call).1.getD (.error noAnswer), (world.settle? call).2.shared) =
      world.shared.perform (world.chance (.store call)) (.store call) := by
  cases hstrike : strike call world.outages with
  | some struck =>
    have hfailure : (world.chance (.store call)).failure =
        some (struck.1.failure.getD noAnswer) := by
      simp only [chance, failure?, hstrike]
    rw [Shared.perform_store_of_failure hfailure]
    simp only [settle?, hstrike]
    cases struck.1.failure <;> rfl
  | none =>
    cases hbackend : world.backend with
    | closedPool =>
      have hfailure : (world.chance (.store call)).failure = some (.closedPool call.attempt) := by
        simp only [chance, failure?, hstrike, hbackend]
      rw [Shared.perform_store_of_failure hfailure]
      simp only [settle?, hstrike, reach, hpages, cannedPage?_nil, hbackend, Option.getD_some]
    | memory =>
      have hfailure : (world.chance (.store call)).failure = none := by
        simp only [chance, failure?, hstrike, hbackend]
      rw [Shared.perform_store_of_none hfailure]
      simp only [settle?, hstrike, reach, hpages, cannedPage?_nil, hbackend, Option.getD_some]
      rfl

/-- A call leaves the background alone, and cans no pages. -/
theorem settle?_rest {world : World} (hpages : world.cannedPages = []) (call : StoreCall) :
    (world.settle? call).2.inFlight = world.inFlight ∧
      (world.settle? call).2.cannedPages = [] := by
  cases hstrike : strike call world.outages with
  | some struck => simp only [settle?, hstrike, hpages, and_self]
  | none =>
    cases hbackend : world.backend <;>
      simp only [settle?, hstrike, reach, hpages, cannedPage?_nil, hbackend, and_self]

/-- A task that is submitted is a job if there is room for it. -/
theorem submitted_eq (world : World) (task : Task) :
    (world.submitted task).system =
        (world.system.perform (world.chance (.submit task)) (.submit task)).2 ∧
      (world.submitted task).cannedPages = world.cannedPages := by
  by_cases hroom : world.inFlight.length < Background.room world.capacity
  · simp [submitted, hroom, system, shared, System.perform, Shared.perform, chance, Effect.tasks]
  · simp [submitted, hroom, system, shared, System.perform, Shared.perform, chance, counted,
      logged]

/-- **One effect, as the system performs it.** -/
theorem perform_eq {world : World} (hpages : world.cannedPages = []) (effect : Effect) :
    world.system.perform (world.chance effect) effect =
        ((world.perform effect).1, (world.perform effect).2.system) ∧
      (world.perform effect).2.cannedPages = [] := by
  cases effect with
  | store call =>
    -- noting the call changes nothing that the system sees
    have hpages' : (world.traced call).cannedPages = [] := hpages
    obtain ⟨hflight, hnone⟩ := settle?_rest hpages' call
    have heq : world.shared.perform (world.chance (.store call)) (.store call) =
        ((world.perform (.store call)).1, (world.perform (.store call)).2.shared) :=
      (settle?_eq hpages' call).symm
    have hjobs : (world.perform (.store call)).2.inFlight = world.inFlight := hflight
    refine ⟨?_, hnone⟩
    rw [System.perform_of_no_tasks rfl]
    unfold system
    rw [heq, hjobs]
  | drawKey format =>
    rw [System.perform_of_no_tasks rfl]
    unfold perform
    cases hkey : GeneratedKey.generate? format world.random with
    | some drawn => simp [Shared.perform, chance, hkey, hpages, system, shared]
    | none => simp [Shared.perform, chance, hkey, hpages, system, shared]
  | submit task =>
    obtain ⟨heq, hnone⟩ := submitted_eq world task
    exact ⟨Prod.ext rfl heq.symm, hnone.trans hpages⟩
  | clock => exact ⟨System.perform_of_no_tasks rfl, hpages⟩
  | freshId => exact ⟨System.perform_of_no_tasks rfl, hpages⟩
  | count counter amount => exact ⟨System.perform_of_no_tasks rfl, hpages⟩
  | log entry => exact ⟨System.perform_of_no_tasks rfl, hpages⟩

/-! ### A whole run -/

/-- The course of a run: nobody else does anything, and each effect meets what the world decides. -/
def course {rules : Rules} (h : ∀ x effect chance, rules.Befalls x effect chance) (p : Program α)
    (world : World) : Course rules :=
  .undisturbed (fun k _ ↦ chances p world k) fun _ x effect ↦ h x effect _

/-- Where the program goes on, the course goes on with it. -/
theorem watchFrom_run {rules : Rules} {chance : Nat → Effect → Chance}
    (h : ∀ k x effect, rules.Befalls x effect (chance k effect)) (p : Program α) {world : World}
    (hpages : world.cannedPages = []) (k : Nat)
    (hchance : ∀ i effect, chance (k + i) effect = chances p world i) :
    ((Course.undisturbed chance h).watchFrom k p world.system).value = (run p world).1 ∧
      ((Course.undisturbed chance h).watchFrom k p world.system).system =
        (run p world).2.system := by
  induction p generalizing world k with
  | done value => exact ⟨rfl, rfl⟩
  | act effect next ih =>
    obtain ⟨heq, hnone⟩ := perform_eq hpages effect
    have hrest := ih (world.perform effect).1 hnone (k + 1) fun i effect ↦ by
      rw [Nat.add_assoc, Nat.add_comm 1 i]
      exact hchance (i + 1) effect
    have hfirst : chance k effect = world.chance effect := hchance 0 effect
    have hwatch : (Course.undisturbed chance h).watchFrom k (.act effect next) world.system =
        let account := (Course.undisturbed chance h).watchFrom (k + 1)
          (next (world.perform effect).1) (world.perform effect).2.system
        { account with turns := ⟨effect, (world.perform effect).1⟩ :: account.turns } := by
      simp only [Course.watchFrom, Course.undisturbed, hfirst, heq]
    rw [hwatch]
    exact hrest

/-- **A run of the world is a program watched**: the value is the same, and so is the system at the
end. -/
theorem watch_run {rules : Rules} (h : ∀ x effect chance, rules.Befalls x effect chance)
    (p : Program α) {world : World} (hpages : world.cannedPages = []) :
    ((world.course h p).watch p world.system).value = (run p world).1 ∧
      ((world.course h p).watch p world.system).system = (run p world).2.system := by
  refine watchFrom_run _ p hpages 0 fun i effect ↦ ?_
  rw [Nat.zero_add]

end Licensing.World
