import Licensing.Proofs.System.Conduct
import Licensing.Proofs.System.World

/-!
# What a program does in a world

`World.run` tells what a program ends with. What it does on the way are its turns
(`World.turns`): each effect that it has, with the answer that the world gives. A program that obeys
has turns that it may have (`World.post_of_obeys`).

Most effects disturb nobody (`Effect.Harmless`): they read, draw, count or log. A program of which
all turns are harmless leaves the world alone (`World.leavesAlone`). Whether they are is settled in
one world; that the result would be the same with other licenses follows.

`World.leavesAlone` is an induction on the turns, whose step is a case analysis of the harmless
effects (`perform_of_harmless`). An outage that strikes a harmless call is used up by it, which is
the one thing that may have changed thereafter.
-/

namespace Licensing

/-- Whether a call is about licenses, and not about API keys. -/
def StoreCall.onLicenses : StoreCall → Bool
  | create _ | findById _ | findByKey _ | list _ => true
  | updateStatus _ _ | updateMetadata _ _ | update _ | dashboard _ _ => true
  | _ => false

/-- The effect can change no store, hands nothing over, and does not ask for licenses. -/
def Effect.Harmless : Effect → Prop
  | .store call => call.isWrite = false ∧ call.onLicenses = false
  | .submit _ => False
  | _ => True

namespace World

variable {α β : Type} {world : World}

/-! ### Turns -/

/-- What a program does in a world, from its start to its end. -/
def turns : Program α → World → List Turn
  | .done _, _ => []
  | .act effect next, world =>
    ⟨effect, (world.perform effect).1⟩ ::
      turns (next (world.perform effect).1) (world.perform effect).2

/-- **One program after another.** -/
theorem turns_bind (p : Program α) (f : α → Program β) (world : World) :
    turns (p.bind f) world = turns p world ++ turns (f (run p world).1) (run p world).2 := by
  induction p generalizing world with
  | done value => rfl
  | act effect next ih => exact congrArg (_ :: ·) (ih _ _)

/-- The first turn has the answer of the world as it was. -/
theorem answer_of_turns_eq {p : Program α} {effect : Effect} {answer : effect.Answer}
    {rest : List Turn} (h : turns p world = ⟨effect, answer⟩ :: rest) :
    answer = (world.perform effect).1 := by
  cases p with
  | done value => cases h
  | act effect' next =>
    cases h
    rfl

/-- Its turns take the program to its end. -/
theorem follows_turns (p : Program α) (world : World) :
    p.Follows (turns p world) (.done (run p world).1) := by
  induction p generalizing world with
  | done value => exact .refl _
  | act effect next ih => exact .step (ih _ _)

/-- **Who obeys ends as it should** in every world. -/
theorem post_of_obeys {may : List Turn → Effect → Prop} {p : Program α}
    {past : List Turn} {post : List Turn → α → Prop} (h : p.Obeys may past post) (world : World) :
    post (past ++ turns p world) (run p world).1 := by
  induction p generalizing past world with
  | done value => exact (List.append_nil past).symm ▸ h
  | act effect next ih =>
    have hrest := ih (world.perform effect).1 (h.2 _) (world.perform effect).2
    rwa [List.append_assoc] at hrest

/-! ### Leaving the world alone -/

/-- The world with the licenses replaced. -/
def withLicenses (world : World) (licenses : LicenseStore) : World :=
  { world with stores := { world.stores with licenses } }

/-- The outages after a call. -/
def outagesAfter (world : World) (call : StoreCall) : List Outage :=
  ((strike call world.outages).map (·.2)).getD world.outages

/-- Where nothing goes wrong with a call, no outage was met. -/
theorem outagesAfter_of_failure?_eq_none {call : StoreCall} (h : world.failure? call = none) :
    world.outagesAfter call = world.outages := by
  unfold failure? at h
  unfold outagesAfter
  cases hstrike : strike call world.outages with
  | some struck =>
    rw [hstrike] at h
    cases h
  | none => rfl

/-- What is read from the stores, licenses apart, leaves them as they were. -/
theorem answer_of_harmless {call : StoreCall} (h : (Effect.store call).Harmless) (stores : Stores)
    (now : Instant) : (stores.answer now call).2 = stores ∧
      ∀ licenses, ({ stores with licenses }.answer now call).1 = (stores.answer now call).1 := by
  obtain ⟨hwrite, hlicenses⟩ := h
  cases call with
  | findEnabledKey | listKeys => exact ⟨rfl, fun _ ↦ rfl⟩
  | createKey | updateLastUsed | disableKey => cases hwrite
  | _ => cases hlicenses

/-- A harmless call that comes to the stores leaves the world as it was. -/
theorem reach_of_harmless {call : StoreCall} (h : (Effect.store call).Harmless) (world : World) :
    world.reach call =
      (match world.backend with
        | .closedPool => .error (.closedPool call.attempt)
        | .memory => (world.stores.answer world.now call).1, world) := by
  have hpage : cannedPage? call world.cannedPages = none := by
    cases call with
    | list => cases h.2
    | _ => rfl
  have hstores : (world.stores.answer world.now call).2 = world.stores :=
    (answer_of_harmless h world.stores world.now).1
  unfold reach
  rw [hpage]
  rcases hbackend : world.backend with - | -
  · simp only [hstores]
    rw [← hbackend]
  · rfl

/-- **A harmless call** fails or is answered by the stores; it may use up an outage, and that is
all. -/
theorem perform_call_of_harmless {call : StoreCall} (h : (Effect.store call).Harmless)
    (world : World) : world.perform (.store call) =
      (match world.failure? call with
        | some failure => .error failure
        | none => (world.stores.answer world.now call).1,
        { world.traced call with outages := world.outagesAfter call }) := by
  -- Noting the call changes nothing that decides about it.
  have hreach := reach_of_harmless h (world.traced call)
  rcases hstruck : strike call world.outages with - | ⟨outage, outages⟩
  · have hstrike : strike call (world.traced call).outages = none := hstruck
    simp only [perform, settle?, hstrike, hreach, failure?, outagesAfter, hstruck,
      Option.getD_some]
    refine Prod.ext ?_ rfl
    show (match world.backend with
      | .closedPool => _
      | .memory => _) = _
    cases world.backend <;> rfl
  · have hstrike : strike call (world.traced call).outages = some (outage, outages) := hstruck
    simp only [perform, settle?, failure?, outagesAfter, hstrike, hstruck]
    cases outage.failure <;> rfl

/-- What a harmless effect leaves as it was, and that licenses are nothing to it. -/
theorem perform_of_harmless {effect : Effect} (h : effect.Harmless) (world : World) :
    (world.perform effect).2.stores = world.stores ∧
    (world.perform effect).2.inFlight = world.inFlight ∧
    (∃ calls, (world.perform effect).2.trace = world.trace ++ calls ∧
      ∀ call ∈ calls, call.onLicenses = false) ∧
    ∀ licenses, (world.withLicenses licenses).perform effect =
      ((world.perform effect).1, (world.perform effect).2.withLicenses licenses) := by
  cases effect with
  | submit => cases h
  | store call =>
    rw [perform_call_of_harmless h]
    refine ⟨rfl, rfl, ⟨[call], rfl, by simpa using h.2⟩, fun licenses ↦ ?_⟩
    rw [perform_call_of_harmless h]
    refine Prod.ext ?_ rfl
    show (match world.failure? call with
      | some failure => Except.error failure
      | none => ({ world.stores with licenses }.answer world.now call).1) = _
    rw [(answer_of_harmless h world.stores world.now).2 licenses]
  | drawKey format =>
    unfold perform
    cases hkey : GeneratedKey.generate? format world.random <;>
      exact ⟨by simp [hkey], by simp [hkey], ⟨[], by simp [hkey], by simp⟩, fun _ ↦ by
        simp [withLicenses, hkey]⟩
  | clock | freshId | count | log =>
    exact ⟨rfl, rfl, ⟨[], (List.append_nil _).symm, by simp⟩, fun _ ↦ rfl⟩

/-- The program, run in the world, leaves it alone: the stores and the background are as they were,
no task was handed over, no call was about licenses, and the result would be the same with other
licenses. -/
structure LeavesAlone (world : World) (p : Program α) : Prop where
  stores_eq : (run p world).2.stores = world.stores
  inFlight_eq : (run p world).2.inFlight = world.inFlight
  no_task : ∀ turn ∈ turns p world, ∀ task, turn.1 ≠ .submit task
  calls : ∃ calls, (run p world).2.trace = world.trace ++ calls ∧
    ∀ call ∈ calls, call.onLicenses = false
  value_eq : ∀ licenses, (run p (world.withLicenses licenses)).1 = (run p world).1

/-- **Who has only harmless turns leaves the world alone.** -/
theorem leavesAlone {p : Program α} (h : ∀ turn ∈ turns p world, turn.1.Harmless) :
    world.LeavesAlone p := by
  induction p generalizing world with
  | done value =>
    refine ⟨rfl, rfl, List.forall_mem_nil _, ⟨[], ?_, by simp⟩, fun _ ↦ rfl⟩
    exact (List.append_nil world.trace).symm
  | act effect next ih =>
    obtain ⟨hfirst, hrest⟩ := List.forall_mem_cons.1 h
    obtain ⟨hstores, hflight, ⟨calls, htrace, hcalls⟩, hlicenses⟩ :=
      perform_of_harmless hfirst world
    have hnext := ih (world.perform effect).1 hrest
    obtain ⟨more, htrace', hmore⟩ := hnext.calls
    constructor
    · exact hnext.stores_eq.trans hstores
    · exact hnext.inFlight_eq.trans hflight
    · refine List.forall_mem_cons.2 ⟨?_, hnext.no_task⟩
      rintro task rfl
      exact hfirst
    · refine ⟨calls ++ more, ?_, List.forall_mem_append.2 ⟨hcalls, hmore⟩⟩
      rw [← List.append_assoc, ← htrace]
      exact htrace'
    · intro licenses
      show (run (next ((world.withLicenses licenses).perform effect).1)
        ((world.withLicenses licenses).perform effect).2).1 = _
      rw [hlicenses licenses]
      exact hnext.value_eq licenses

end World

end Licensing
