import Licensing.Proofs.License.Roll
import Licensing.Proofs.System.Conclusions
import Licensing.Proofs.System.Turns

/-!
# Programs that do all or nothing

A turn commits when a write has been answered with success (`Turn.Commits`); a call that fails
leaves the stores as they were. A program is atomic with respect to the values that count as good
(`Program.Atomic`) if it hands nothing over, and nothing but calm effects, and then a good value,
can follow a turn that commits. So a value that is not good is only ever reached with nothing
changed, and that is the main result, `World.run_of_atomic`: about the stores of any world, whatever
goes wrong in it.

Shape decisions:

* Atomicity speaks of every answer that a program can get, so it is settled program by program,
  without a store, and no pattern of failures has to be described.
* A program with calm effects alone (`Effect.Calm`) is atomic with respect to no value at all, so it
  never changes a store (`World.stores_of_calm`).
-/

namespace Licensing

/-- The turn has changed a store, or may have: a write that was answered with success. -/
def Turn.Commits : Turn → Prop
  | ⟨.store call, .ok _⟩ => call.isWrite = true
  | _ => False

/-- The effect changes no store and hands nothing over, whatever it is answered. -/
def Effect.Calm : Effect → Prop
  | .store call => call.isWrite = false
  | .submit _ => False
  | _ => True

/-- A calm effect never commits. -/
theorem Effect.Calm.not_commits {effect : Effect} (h : effect.Calm) (answer : effect.Answer) :
    ¬ Turn.Commits ⟨effect, answer⟩ := by
  cases effect with
  | store call =>
    rcases answer with failure | result
    · exact id
    · exact Bool.eq_false_iff.1 h
  | _ => exact id

/-- A calm effect hands nothing over. -/
theorem Effect.Calm.tasks_eq {effect : Effect} (h : effect.Calm) : effect.tasks = [] := by
  cases effect with
  | submit => cases h
  | _ => rfl

/-- The effect stays within the program: it asks no store and hands nothing over. -/
def Effect.Local : Effect → Prop
  | .store _ | .submit _ => False
  | _ => True

theorem Effect.Local.calm {effect : Effect} (h : effect.Local) : effect.Calm := by
  cases effect with
  | store | submit => cases h
  | _ => trivial

namespace Program

variable {α β : Type} {good : α → Prop} {good' : β → Prop}

/-! ### Atomic programs -/

/-- The program hands nothing over, and once it has changed a store it concludes well. -/
structure Atomic (good : α → Prop) (p : Program α) : Prop where
  only_tasks : p.Only fun effect ↦ effect.tasks = []
  once : p.Once Turn.Commits Effect.Calm good

theorem Only.mono {kind kind' : Effect → Prop} {p : Program α} (h : p.Only kind)
    (hkind : ∀ effect, kind effect → kind' effect) : p.Only kind' := by
  induction p with
  | done value => trivial
  | act effect next ih => exact ⟨hkind effect h.1, fun answer ↦ ih answer (h.2 answer)⟩

theorem Only.calm {p : Program α} (h : p.Only Effect.Local) : p.Only Effect.Calm :=
  h.mono fun _ ↦ Effect.Local.calm

/-- What is calm throughout is atomic, whichever values are good. -/
theorem Only.atomic {p : Program α} (h : p.Only Effect.Calm) : p.Atomic good where
  only_tasks := h.mono fun _ ↦ Effect.Calm.tasks_eq
  once := h.once (fun _ answer hcalm ↦ hcalm.not_commits answer) _ _

/-- A program that has ended is atomic. -/
theorem Atomic.done (value : α) : (done value).Atomic good := ⟨trivial, trivial⟩

/-- **One atomic program after another**, where a good value of the first leads to the conclusion of
the whole. -/
theorem Atomic.bind {p : Program α} {f : α → Program β} (hp : p.Atomic good)
    (hgood : ∀ value, good value → (f value).Concludes Effect.Calm good')
    (hf : ∀ value, (f value).Atomic good') : (p.bind f).Atomic good' where
  only_tasks := hp.only_tasks.bind fun value ↦ (hf value).only_tasks
  once := hp.once.bind hgood fun value ↦ (hf value).once

/-- What is calm may come before anything atomic. -/
theorem Only.atomic_bind {p : Program α} {f : α → Program β} (hp : p.Only Effect.Calm)
    (hf : ∀ value, (f value).Atomic good') : (p.bind f).Atomic good' :=
  Atomic.bind (hp.atomic : p.Atomic fun _ ↦ False) (fun _ hfalse ↦ hfalse.elim) hf

/-! ### Atomic operations -/

/-- The operation changes nothing unless it succeeds. -/
abbrev AllOrNothing {ε : Type} (p : Program (Except ε α)) : Prop :=
  p.Atomic fun result ↦ ∃ value, result = .ok value

/-- A single call changes nothing unless it succeeds. -/
theorem allOrNothing_call (call : StoreCall) : AllOrNothing (Operation.call call).run where
  only_tasks := .call rfl
  once answer := by
    refine ⟨trivial, fun hcommits ↦ ?_⟩
    rcases answer with failure | value
    · exact hcommits.elim
    · exact ⟨value, rfl⟩

/-- Calm steps may come first, whether they succeed or cut the rest short. -/
theorem Only.atomic_except_bind {ε : Type} {op : ExceptT ε Program α} {f : α → ExceptT ε Program β}
    {good : Except ε β → Prop} (hop : Only Effect.Calm op.run)
    (hf : ∀ value, Atomic good (f value).run) : Atomic good (op >>= f).run := by
  refine Only.atomic_bind hop ?_
  rintro (refusal | value)
  · exact .done _
  · exact hf value

end Program

/-! ### In a world -/

/-- Reading leaves the stores as they were. -/
theorem Stores.answer_snd_of_read (stores : Stores) (now : Instant) {call : StoreCall}
    (h : call.isWrite = false) : (stores.answer now call).2 = stores := by
  cases call with
  | create | updateStatus | updateMetadata | update => cases h
  | createKey | updateLastUsed | disableKey => cases h
  | _ => rfl

namespace World

variable {α : Type} {world : World}

/-- A call that does not commit leaves the stores as they were, and no call touches the
background. -/
theorem stores_perform_store (world : World) (call : StoreCall) :
    (world.perform (.store call)).2.inFlight = world.inFlight ∧
      (¬ Turn.Commits ⟨.store call, (world.perform (.store call)).1⟩ →
        (world.perform (.store call)).2.stores = world.stores) := by
  rcases hstruck : strike call (world.traced call).outages with - | ⟨outage, outages⟩
  · rcases hcanned : cannedPage? call (world.traced call).cannedPages with - | ⟨page, rest⟩
    · rcases hbackend : (world.traced call).backend with - | -
      · simp only [perform, settle?, hstruck, reach, hcanned, hbackend, Option.getD_some]
        refine ⟨rfl, fun hcommits ↦ ?_⟩
        show (world.stores.answer world.now call).2 = world.stores
        rcases hanswer : (world.stores.answer world.now call).1 with failure | result
        · exact Stores.answer_snd_of_error hanswer
        · refine Stores.answer_snd_of_read _ _ (Bool.eq_false_iff.2 fun hwrite ↦ hcommits ?_)
          show Turn.Commits ⟨.store call, (world.stores.answer world.now call).1⟩
          rw [hanswer]
          exact hwrite
      · simp only [perform, settle?, hstruck, reach, hcanned, hbackend]
        exact ⟨rfl, fun _ ↦ rfl⟩
    · simp only [perform, settle?, hstruck, reach, hcanned]
      exact ⟨rfl, fun _ ↦ rfl⟩
  · simp only [perform, settle?, hstruck]
    exact ⟨rfl, fun _ ↦ rfl⟩

/-- **One effect** that hands nothing over and does not commit changes neither the background nor
the stores. -/
theorem stores_perform {effect : Effect} (htasks : effect.tasks = []) (world : World) :
    (world.perform effect).2.inFlight = world.inFlight ∧
      (¬ Turn.Commits ⟨effect, (world.perform effect).1⟩ →
        (world.perform effect).2.stores = world.stores) := by
  cases effect with
  | store call => exact stores_perform_store world call
  | submit task => cases htasks
  | drawKey format =>
    unfold perform
    cases hkey : GeneratedKey.generate? format world.random <;> simp [hkey]
  | clock | freshId | count | log => exact ⟨rfl, fun _ ↦ rfl⟩

/-- What the effects of a program are in a world is what they are in general. -/
theorem forall_turns_of_only {kind : Effect → Prop} {p : Program α} (h : p.Only kind) :
    ∀ turn ∈ turns p world, kind turn.1 := by
  induction p generalizing world with
  | done value => exact List.forall_mem_nil _
  | act effect next ih => exact List.forall_mem_cons.2 ⟨h.1, ih _ (h.2 _)⟩

/-- **What is calm throughout leaves the stores as they were.** -/
theorem stores_of_calm {p : Program α} (h : p.Only Effect.Calm) (world : World) :
    (run p world).2.stores = world.stores := by
  induction p generalizing world with
  | done value => rfl
  | act effect next ih =>
    have hfirst := (stores_perform h.1.tasks_eq world).2 (h.1.not_commits _)
    exact (ih _ (h.2 _) _).trans hfirst

/-- What concludes ends well. -/
theorem good_of_concludes {kind : Effect → Prop} {good : α → Prop} {p : Program α}
    (h : p.Concludes kind good) (world : World) : good (run p world).1 := by
  induction p generalizing world with
  | done value => exact h
  | act effect next ih => exact ih _ (h.2 _) _

/-- **An atomic program does all or nothing**: it hands nothing over, and unless it ends well the
stores are as they were. -/
theorem run_of_atomic {good : α → Prop} {p : Program α} (h : p.Atomic good) (world : World) :
    (run p world).2.inFlight = world.inFlight ∧
      (¬ good (run p world).1 → (run p world).2.stores = world.stores) := by
  induction p generalizing world with
  | done value => exact ⟨rfl, fun _ ↦ rfl⟩
  | act effect next ih =>
    obtain ⟨hflight, hstores⟩ := stores_perform h.only_tasks.1 world
    obtain ⟨hnext, hconcludes⟩ := h.once (world.perform effect).1
    obtain ⟨hrestFlight, hrestStores⟩ :=
      ih _ ⟨h.only_tasks.2 _, hnext⟩ (world.perform effect).2
    refine ⟨hrestFlight.trans hflight, fun hbad ↦ ?_⟩
    -- Had this effect changed a store, the end would have been a good one.
    refine (hrestStores hbad).trans (hstores fun hcommits ↦ hbad ?_)
    exact good_of_concludes (hconcludes hcommits) _

end World

end Licensing
