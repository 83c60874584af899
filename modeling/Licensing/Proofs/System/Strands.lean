import Licensing.Proofs.ApiKey.Keeping
import Licensing.Proofs.License.Keeping
import Licensing.Proofs.System.Course

/-!
# Strands

A program among others shows itself only where it asks for something: at a call, at a reading of the
clock, at a draw. What it counts, logs and hands over in between is had in one go
(`Program.settle`). A `Strand` is what is left of a program that has settled, with the tasks that it
has handed over and that nobody has done yet. It goes on by one effect (`Strand.proceed`), and its
tasks are done one at a time, in any order or never (`Strand.work`).

Shape decisions:

* What a strand does is decided from outside, by a `Chance` and by the name of a task. So two
  strands can be let do the same although one of them has handed over a task that the other has not.
* A task is done as a whole (`Shared.run`). It makes a single call (`Shared.worked_eq`), so nothing
  that comes in between could make a difference.
-/

namespace Licensing

variable {α : Type}

/-! ### Settling -/

/-- Whether the effect asks for nothing, so that nothing depends on when it is had. -/
def Effect.isSilent : Effect → Bool
  | .submit _ | .count _ _ | .log _ => true
  | _ => false

/-- Counts, logs and hands over, up to the first effect that asks for something. What was handed
over, and what is left. -/
def Program.settle : Program α → List Task × Program α
  | .done value => ([], .done value)
  | .act (.submit task) next => (task :: (next ()).settle.1, (next ()).settle.2)
  | .act (.count _ _) next => (next ()).settle
  | .act (.log _) next => (next ()).settle
  | .act effect next => ([], .act effect next)

/-- The value of a program that has come to its end. -/
def Program.value? : Program α → Option α
  | .done value => some value
  | .act _ _ => none

/-! ### Tasks -/

/-- Runs a program to its end, with the same chance at each effect. -/
def Shared.run (chance : Chance) : Program α → Shared → α × Shared
  | .done value, x => (value, x)
  | .act effect next, x => run chance (next (x.perform chance effect).1) (x.perform chance effect).2

/-- The one call that a task makes at a time. -/
def Task.call (now : Instant) : Task → StoreCall
  | expire id => .updateStatus id .expired
  | enrich id metadata => .updateMetadata id metadata
  | noteUse id => .updateLastUsed id now

namespace Stores

variable (stores : Stores) (now : Instant)

/-- The stores after a task was done. -/
def worked (task : Task) : Stores := (stores.answer now (task.call now)).2

theorem worked_expire (id : Uuid) : stores.worked now (.expire id) =
    { stores with licenses := stores.licenses.changed id (·.withStatus .expired now) } := by
  rw [worked, Task.call, answer_updateStatus]

theorem worked_enrich (id : Uuid) (metadata : Json) : stores.worked now (.enrich id metadata) =
    { stores with
      licenses := stores.licenses.changed id (·.withMetadata (some metadata) now) } := by
  rw [worked, Task.call, answer_updateMetadata]

theorem worked_noteUse (id : Uuid) : stores.worked now (.noteUse id) =
    { stores with keys := stores.keys.changed id (ApiKeyStore.noted now) } := by
  rw [worked, Task.call, answer_updateLastUsed, ApiKeyStore.change]
  cases hstored : stores.keys.byId.contains id with
  | true => rfl
  | false =>
    -- A key that is not there is not changed.
    rw [ApiKeyStore.changed, Table.modify_of_contains_eq_false hstored]
    rfl

end Stores

namespace Shared

variable {x : Shared} {chance : Chance}

/-- What is shared after a task was done. -/
def worked (x : Shared) (chance : Chance) (task : Task) : Shared :=
  (x.run chance task.program).2

/-- A task does what its call does. -/
theorem worked_eq (x : Shared) (chance : Chance) (task : Task) :
    x.worked chance task = (x.perform chance (.store (task.call x.now))).2 := by
  cases task with
  | expire id =>
    show (x.run chance (.act (.store (.updateStatus id .expired)) _)).2 = _
    rw [run]
    -- That the license is expired is counted, which changes nothing that is shared.
    cases (x.perform chance (.store (.updateStatus id .expired))).1 <;> rfl
  | enrich | noteUse => rfl

/-- A task whose call fails leaves everything as it was. -/
theorem worked_of_failure {failure : Failure} (h : chance.failure = some failure) (task : Task) :
    x.worked chance task = x := by
  rw [worked_eq, perform_store_of_failure h]

theorem worked_of_none (h : chance.failure = none) (task : Task) :
    x.worked chance task = { x with stores := x.stores.worked x.now task } := by
  rw [worked_eq, perform_store_of_none h, Stores.worked]

end Shared

/-- The first task of a name, and the others. -/
def Task.pick? (name : String) : List Task → Option (Task × List Task)
  | [] => none
  | task :: rest =>
    if task.name = name then some (task, rest)
    else (pick? name rest).map fun picked ↦ (picked.1, task :: picked.2)

theorem Task.name_of_pick? {name : String} {tasks rest : List Task} {task : Task}
    (h : pick? name tasks = some (task, rest)) : task.name = name := by
  induction tasks generalizing rest with
  | nil => cases h
  | cons head tail ih =>
    unfold pick? at h
    split at h
    · next hname =>
      cases h
      exact hname
    · obtain ⟨picked, hpicked, heq⟩ := Option.map_eq_some_iff.1 h
      cases heq
      exact ih hpicked

/-- What is picked was there, and so were the others. -/
theorem Task.mem_of_pick? {name : String} {tasks rest : List Task} {task : Task}
    (h : pick? name tasks = some (task, rest)) :
    task ∈ tasks ∧ ∀ other ∈ rest, other ∈ tasks := by
  induction tasks generalizing rest with
  | nil => cases h
  | cons head tail ih =>
    unfold pick? at h
    split at h
    · cases h
      exact ⟨List.mem_cons_self, fun _ ↦ List.mem_cons_of_mem _⟩
    · obtain ⟨picked, hpicked, heq⟩ := Option.map_eq_some_iff.1 h
      cases heq
      obtain ⟨hmem, hrest⟩ := ih hpicked
      refine ⟨List.mem_cons_of_mem _ hmem, List.forall_mem_cons.2 ⟨List.mem_cons_self, ?_⟩⟩
      exact fun other hother ↦ List.mem_cons_of_mem _ (hrest other hother)

/-! ### Strands -/

/-- What is left of a program that has settled, and the tasks it handed over that are still to be
done. -/
structure Strand (α : Type) where
  rest : Program α
  tasks : List Task

namespace Strand

/-- A program as it starts. -/
def ofProgram (p : Program α) : Strand α := ⟨p.settle.2, p.settle.1⟩

/-- Goes on by the next effect. Chance decides about the effect, and whether there is room for the
tasks that are handed over upon it. -/
def proceed (x : Shared) (chance : Chance) : Strand α → Strand α × Shared
  | ⟨.done value, tasks⟩ => (⟨.done value, tasks⟩, x)
  | ⟨.act effect next, tasks⟩ =>
    let done := x.perform chance effect
    let settled := (next done.1).settle
    (⟨settled.2, tasks ++ if chance.room then settled.1 else []⟩, done.2)

/-- Does the first task of a name, if there is one. -/
def work (x : Shared) (name : String) (chance : Chance) (strand : Strand α) : Strand α × Shared :=
  match Task.pick? name strand.tasks with
  | some (task, tasks) => ({ strand with tasks }, x.worked chance task)
  | none => (strand, x)

end Strand

end Licensing
