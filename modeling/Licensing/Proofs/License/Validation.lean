import Licensing.Proofs.License.Verdict
import Licensing.World

/-!
# What a validation does

A validation looks its license up, reads the clock, hands over at most one task and counts its
answer (`License.validate_eq`). Run on its own (`World.run_validate`) it leaves the stores alone,
and what it answers and leaves behind is what the rules say of the license that has the key:
`License.validate_decides`.

The last rests on the rules for a license that was found (`verdict_decides`, `followUp?_followsUp`)
and on the index leading from a key to the one license that has it. The lookup is the only step that
can fail (`World.perform_findByKey`), and nothing comes before it.
-/

namespace Licensing

/-- What is left of a validation once the license was looked up and the clock was read. -/
def License.judge (found : Option License) (request : ValidationRequest) (now : Instant) :
    Operation Verdict :=
  let answer := verdict found request now
  let noted := .act (.count (.validations answer.reason) 1) fun _ ↦ .done (.ok answer)
  match followUp? found request now with
  | some task => .act (.submit task) fun _ ↦ noted
  | none => noted

/-- **A validation effect by effect.** -/
theorem License.validate_eq (request : ValidationRequest) :
    License.validate request = .act (.store (.findByKey request.key)) fun
      | .error failure => .done (.error failure)
      | .ok found => .act .clock fun now ↦ judge found request now := by
  refine congrArg (Program.act _) (funext fun answer ↦ ?_)
  rcases answer with failure | found
  · rfl
  · refine congrArg (Program.act _) (funext fun now ↦ ?_)
    simp only [judge, Program.bind, Function.comp, ExceptT.bindCont]
    cases followUp? found request now <;> rfl

namespace World

/-! ### Looking a license up -/

theorem reach_findByKey (world : World) (key : String) :
    world.reach (.findByKey key) = match world.backend with
      | .closedPool => (.error (.closedPool (StoreCall.findByKey key).attempt), world)
      | .memory => (.ok (world.stores.licenses.findByKey key), world) := by
  rcases world with ⟨backend⟩
  cases backend <;> rfl

/-- **A lookup** fails, or finds what is stored. It leaves no more than its trace, and where it
fails perhaps an outage that is used up. -/
theorem perform_findByKey (world : World) (key : String) :
    (∃ failure outages, world.perform (.store (.findByKey key)) =
        (.error failure, { world.traced (.findByKey key) with outages })) ∨
      world.perform (.store (.findByKey key)) =
        (.ok (world.stores.licenses.findByKey key), world.traced (.findByKey key)) := by
  simp only [perform, settle?, reach_findByKey]
  split
  · next outage outages _ =>
    cases outage.failure with
    | none => exact .inl ⟨noAnswer, outages, rfl⟩
    | some failure => exact .inl ⟨failure, outages, rfl⟩
  · rcases world with ⟨backend⟩
    cases backend with
    | closedPool =>
      exact .inl ⟨.closedPool (StoreCall.findByKey key).attempt, _, rfl⟩
    | memory => exact .inr rfl

end World

/-! ### Validating on its own -/

theorem World.run_judge (found : Option License) (request : ValidationRequest) (now : Instant)
    (world : World) : run (License.judge found request now) world =
      (.ok (verdict found request now),
        (((followUp? found request now).elim world world.submitted).counted
          (.validations (verdict found request now).reason) 1)) := by
  unfold License.judge
  cases followUp? found request now <;> rfl

/-- A validation is its lookup and, where that does not fail, a judgement on what was found. -/
theorem World.run_validate (request : ValidationRequest) (world : World) :
    run (License.validate request) world =
      match world.perform (.store (.findByKey request.key)) with
      | (.error failure, after) => (.error failure, after)
      | (.ok found, after) => run (License.judge found request after.now) after := by
  rw [License.validate_eq, run]
  rcases world.perform (.store (.findByKey request.key)) with ⟨failure | found, after⟩ <;> rfl

/-- What a validation answers in a world where nothing goes wrong. -/
theorem World.run_validate_fresh (request : ValidationRequest) (stores : Stores) (now : Instant) :
    (run (License.validate request) { now, stores }).1 =
      .ok (verdict (stores.licenses.findByKey request.key) request now) := by
  rw [run_validate]
  show (run (License.judge (stores.licenses.findByKey request.key) request now) _).1 = _
  rw [run_judge]

@[simp] theorem World.stores_submitted (world : World) (task : Task) :
    (world.submitted task).stores = world.stores := by
  simp only [submitted]
  split <;> rfl

@[simp] theorem World.trace_submitted (world : World) (task : Task) :
    (world.submitted task).trace = world.trace := by
  simp only [submitted]
  split <;> rfl

/-- **The decision is the one that the rules say.** A validation fails exactly where its lookup
does, and with the same failure. Otherwise its answer is decided by the rules (`Decides`), and what
it does is to look up, to hand over the task that follows (`FollowsUp`), if any, and to count its
answer: the stores are what they were and the lookup is the only call that was made. -/
theorem License.validate_decides (request : ValidationRequest) (world : World)
    (hindexed : world.stores.licenses.Indexed) :
    (World.run (License.validate request) world).2.stores = world.stores ∧
    (World.run (License.validate request) world).2.trace =
      world.trace ++ [.findByKey request.key] ∧
    match world.perform (.store (.findByKey request.key)) with
    | (.error failure, after) =>
      World.run (License.validate request) world = (.error failure, after)
    | (.ok _, after) =>
      ∃ answer task, Decides world.stores.licenses request world.now answer ∧
        FollowsUp world.stores.licenses request world.now answer task ∧
        World.run (License.validate request) world =
          (.ok answer,
            (task.elim after after.submitted).counted (.validations answer.reason) 1) := by
  rw [World.run_validate]
  rcases world.perform_findByKey request.key with ⟨failure, outages, hlookup⟩ | hlookup
  · rw [hlookup]
    exact ⟨rfl, rfl, rfl⟩
  · rw [hlookup]
    have hfound : world.stores.licenses.Has request.key
        (world.stores.licenses.findByKey request.key) := fun _ ↦ hindexed.findByKey_eq_some_iff
    have hbackground : ∀ (task : Option Task) (after : World),
        (task.elim after after.submitted).stores = after.stores ∧
          (task.elim after after.submitted).trace = after.trace := by
      rintro (- | task) after
      · exact ⟨rfl, rfl⟩
      · exact ⟨after.stores_submitted task, after.trace_submitted task⟩
    simp only [World.run_judge]
    exact ⟨(hbackground _ _).1, (hbackground _ _).2, _, _, verdict_decides hfound,
      followUp?_followsUp hfound, rfl⟩

/-- A license with time left that is bound to a device and to a user. -/
def boundLicense : License :=
  { License.fresh ⟨0⟩ ⟨0⟩ "K" "standard" "app" .active with
    expiresAt := some ⟨9⟩
    metadata := some (.ofPairs [("device_id", .string "desk"), ("user_id", .string "ada")]) }

/-- The user on another device: the device is the first check that fails, and nothing of the license
is told. -/
theorem License.validate_decides_elsewhere :
    let request : ValidationRequest :=
      ⟨"K", "app", some (.ofPairs [("device_id", .string "road"), ("user_id", .string "ada")])⟩
    let world : World := { now := ⟨5⟩, stores := ⟨.single boundLicense, .empty⟩ }
    world.stores.licenses.Indexed ∧ ∃ answer,
      (World.run (License.validate request) world).1 = .ok answer ∧
        answer.reason = .deviceMismatch ∧ answer.disclosed = none ∧
        Check.FirstFailing request ⟨5⟩ (some boundLicense) .deviceMismatch := by
  intro request world
  have hindexed : world.stores.licenses.Indexed := LicenseStore.indexed_single boundLicense
  have hanswer : (World.run (License.validate request) world).1 =
      .ok (.rejected .deviceMismatch (some boundLicense)) := by
    decide +kernel
  obtain ⟨-, -, answer, task, hdecides, -, hrun⟩ := License.validate_decides request world hindexed
  obtain rfl : answer = .rejected .deviceMismatch (some boundLicense) :=
    Except.ok.inj ((congrArg Prod.fst hrun).symm.trans hanswer)
  exact ⟨hindexed, _, hanswer, rfl, hdecides.withheld rfl, hdecides.reason rfl⟩

end Licensing
