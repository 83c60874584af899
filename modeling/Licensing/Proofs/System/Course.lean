import Mathlib.Logic.Relation
import Licensing.ApiKey.Generator
import Licensing.Program
import Licensing.Stores

/-!
# Programs among other programs

`World.run` lets a program run to its end with nothing happening in between. Here nothing is
promised: between any two effects of a program other programs may have theirs, time may pass, and a
call may fail. A `System` is the stores, the clock and whatever else is in progress; `Rules` say
which programs may be started in it and what may befall an effect, and `Rules.Step` is a single step
of any of them.

One program is singled out and watched (`Course.watch`). A `Course` decides everything that the
program does not: what the others do before each of its effects, and what befalls the effect. What
the program did is kept as a list of `Turn`s, each an effect with the answer it got.

Shape decisions:

* A call is answered by the stores at one point of time (`Stores.answer`), or fails and leaves them
  as they were. A job that is dropped, is given up or goes down with its caller leaves the system
  between two of its effects (`Rules.Step.leave`); it may have made its write by then or not.
* A course is a function, so a watched program always comes to its end and a claim about what it
  answers needs no assumption that it does. Nothing is lost: any interleaving is some course.
-/

namespace Licensing

/-! ### What programs share -/

/-- What all programs share: the stores and the clock. -/
structure Shared where
  stores : Stores
  now : Instant

/-- What chance decides about an effect: whether a call to a store fails, what is drawn, and whether
the background has room for a task. -/
structure Chance where
  failure : Option Failure := none
  id : Uuid := default
  random : List UInt8 := []
  room : Bool := true

/-- The answer to an effect, and what is shared after it. -/
def Shared.perform (x : Shared) (chance : Chance) : (effect : Effect) → effect.Answer × Shared
  | .store call =>
    match chance.failure with
    | some failure => (.error failure, x)
    | none => ((x.stores.answer x.now call).1, { x with stores := (x.stores.answer x.now call).2 })
  | .clock => (x.now, x)
  | .freshId => (chance.id, x)
  | .drawKey format => ((GeneratedKey.generate? format chance.random).map (·.1), x)
  | .submit _ => ((), x)
  | .count _ _ => ((), x)
  | .log _ => ((), x)

namespace Shared

variable {x : Shared} {chance : Chance} {call : StoreCall}

theorem perform_store_of_failure {failure : Failure} (h : chance.failure = some failure) :
    x.perform chance (.store call) = (.error failure, x) := by
  simp only [perform, h]

theorem perform_store_of_none (h : chance.failure = none) :
    x.perform chance (.store call) =
      ((x.stores.answer x.now call).1, { x with stores := (x.stores.answer x.now call).2 }) := by
  simp only [perform, h]

/-- No effect moves the clock. -/
@[simp] theorem perform_now (effect : Effect) : (x.perform chance effect).2.now = x.now := by
  cases effect with
  | store call => cases h : chance.failure <;> simp only [perform, h]
  | _ => rfl

end Shared

/-! ### Systems -/

/-- A system: what is shared, and what is left of every program in progress. -/
structure System extends Shared where
  jobs : List (Program Unit)

/-- The tasks that an effect hands to the background. -/
def Effect.tasks : Effect → List Task
  | .submit task => [task]
  | _ => []

/-- An operation as a job of its own: what it answers is not waited for. -/
def Operation.job {α : Type} (op : Operation α) : Program Unit :=
  Program.bind op.run fun _ ↦ .done ()

/-- The answer to an effect in a system, and the system after it. A task that finds room becomes a
job. -/
def System.perform (s : System) (chance : Chance) (effect : Effect) : effect.Answer × System :=
  let born := if chance.room then effect.tasks.map (·.program.job) else []
  ((s.toShared.perform chance effect).1,
    ⟨(s.toShared.perform chance effect).2, s.jobs ++ born⟩)

/-- An effect that submits nothing is performed by what is shared alone. -/
theorem System.perform_of_no_tasks {s : System} {chance : Chance} {effect : Effect}
    (h : effect.tasks = []) : s.perform chance effect =
      ((s.toShared.perform chance effect).1, ⟨(s.toShared.perform chance effect).2, s.jobs⟩) := by
  simp [System.perform, h]

/-- The rules of a system: which programs may be started, and what may befall an effect. -/
structure Rules where
  Starts : Program Unit → Prop
  Befalls : Shared → Effect → Chance → Prop := fun _ _ _ ↦ True

namespace Rules

/-- A single step: time passes, a program is started, a job has its next effect, a job leaves. -/
inductive Step (rules : Rules) : System → System → Prop
  | tick {s : System} {now : Instant} (h : s.now ≤ now) : Step rules s { s with now }
  | start {s : System} {p : Program Unit} (h : rules.Starts p) :
      Step rules s { s with jobs := s.jobs ++ [p] }
  | act {x : Shared} {before after : List (Program Unit)} {effect : Effect}
      {next : effect.Answer → Program Unit} {chance : Chance} (h : rules.Befalls x effect chance) :
      Step rules ⟨x, before ++ .act effect next :: after⟩
        (let done := System.perform ⟨x, before ++ after⟩ chance effect
         { done.2 with jobs := done.2.jobs ++ [next done.1] })
  | leave {x : Shared} {before after : List (Program Unit)} {p : Program Unit} :
      Step rules ⟨x, before ++ p :: after⟩ ⟨x, before ++ after⟩

/-- Any number of steps. -/
def Reaches (rules : Rules) : System → System → Prop := Relation.ReflTransGen rules.Step

/-- Nothing can be started, so what is not there is never done. -/
def alone (befalls : Effect → Chance → Prop) : Rules := ⟨fun _ ↦ False, fun _ ↦ befalls⟩

end Rules

/-! ### Watching one program -/

/-- An effect and the answer that it got. -/
abbrev Turn := (effect : Effect) × effect.Answer

namespace Turn

/-- The point of time that was read. -/
def reading? : Turn → Option Instant
  | ⟨.clock, now⟩ => some now
  | _ => none

/-- The licenses that were listed. -/
def listing? : Turn → Option (List License)
  | ⟨.store (.list _), .ok page⟩ => some page.items
  | _ => none

/-- The license whose status was to be set, the status, and whether that succeeded. -/
def statusWrite? : Turn → Option (Uuid × Status × Bool)
  | ⟨.store (.updateStatus id status), .ok _⟩ => some (id, status, true)
  | ⟨.store (.updateStatus id status), .error _⟩ => some (id, status, false)
  | _ => none

/-- The points of time that were read, in order. -/
def readings (turns : List Turn) : List Instant := turns.filterMap reading?

/-- What was listed, in order. -/
def listings (turns : List Turn) : List (List License) := turns.filterMap listing?

/-- The attempts to set a status, in order, each with whether it succeeded. -/
def statusWrites (turns : List Turn) : List (Uuid × Status × Bool) := turns.filterMap statusWrite?

/-- The licenses whose status was set, in order. -/
def succeeded (turns : List Turn) : List Uuid := ((statusWrites turns).filter (·.2.2)).map (·.1)

/-- The licenses whose status could not be set, in order. -/
def failed (turns : List Turn) : List Uuid := ((statusWrites turns).filter (!·.2.2)).map (·.1)

variable (turns more : List Turn)

@[simp] theorem readings_append : readings (turns ++ more) = readings turns ++ readings more :=
  List.filterMap_append

@[simp] theorem listings_append : listings (turns ++ more) = listings turns ++ listings more :=
  List.filterMap_append

@[simp] theorem statusWrites_append :
    statusWrites (turns ++ more) = statusWrites turns ++ statusWrites more := List.filterMap_append

@[simp] theorem succeeded_append :
    succeeded (turns ++ more) = succeeded turns ++ succeeded more := by
  simp [succeeded]

@[simp] theorem failed_append : failed (turns ++ more) = failed turns ++ failed more := by
  simp [failed]

end Turn

/-- What was seen of a program that was watched: its turns, what it ended with, and the system at
that moment. -/
structure Account (α : Type) where
  turns : List Turn
  value : α
  system : System

/-- Everything that a watched program does not decide, within given rules: what the others do before
each of its effects, and what befalls the effect. -/
structure Course (rules : Rules) where
  meanwhile : Nat → System → System
  chance : Nat → Shared → Effect → Chance
  reaches : ∀ k s, rules.Reaches s (meanwhile k s)
  befalls : ∀ k x effect, rules.Befalls x effect (chance k x effect)

namespace Course

variable {rules : Rules} {α : Type}

/-- The course on which nobody else does anything. -/
def undisturbed (chance : Nat → Effect → Chance)
    (h : ∀ k x effect, rules.Befalls x effect (chance k effect)) : Course rules where
  meanwhile _ s := s
  chance k _ := chance k
  reaches _ _ := .refl
  befalls := h

/-- The same, where what befalls an effect depends on the effect alone. -/
def idle (chance : Effect → Chance) (h : ∀ x effect, rules.Befalls x effect (chance effect)) :
    Course rules :=
  undisturbed (fun _ ↦ chance) fun _ ↦ h

/-- Watches a program whose next effect has the given number. -/
def watchFrom (course : Course rules) : Nat → Program α → System → Account α
  | _, .done value, s => ⟨[], value, s⟩
  | k, .act effect next, s =>
    let s := course.meanwhile k s
    let done := s.perform (course.chance k s.toShared effect) effect
    let account := course.watchFrom (k + 1) (next done.1) done.2
    { account with turns := ⟨effect, done.1⟩ :: account.turns }

/-- Watches a program from its start to its end. -/
def watch (course : Course rules) (p : Program α) (s : System) : Account α :=
  course.watchFrom 0 p s

end Course

/-! ### Programs that run in one go -/

namespace System

/-- The system once a program has had all its effects, each befallen by what is given for it, and
nobody else has had any in between. -/
def finish (s : System) (chance : Effect → Chance) : Program Unit → System
  | .done _ => s
  | .act effect next =>
    let done := s.perform (chance effect) effect
    done.2.finish chance (next done.1)

/-- The same for what is left of the first program in progress, if there is one. -/
def finishFirst (s : System) (chance : Effect → Chance) : System :=
  match s.jobs with
  | [] => s
  | p :: rest => finish { s with jobs := rest } chance p

end System

namespace Rules

variable {rules : Rules} {chance : Effect → Chance}

/-- **A job can always be finished in one go**, by a chance that can befall every effect. -/
theorem reaches_finish (h : ∀ x effect, rules.Befalls x effect (chance effect)) (p : Program Unit)
    (x : Shared) (before after : List (Program Unit)) :
    rules.Reaches ⟨x, before ++ p :: after⟩ (System.finish ⟨x, before ++ after⟩ chance p) := by
  induction p generalizing x before after with
  | done value => exact .single .leave
  | act effect next ih =>
    refine .head (.act (h x effect)) ?_
    -- The rest of the job is at the end now, with nobody after it.
    let done := System.perform ⟨x, before ++ after⟩ (chance effect) effect
    have hrest := ih done.1 done.2.toShared done.2.jobs []
    rw [List.append_nil] at hrest
    exact hrest

/-- What may be started can be started and finished. -/
theorem reaches_finish_of_starts (h : ∀ x effect, rules.Befalls x effect (chance effect))
    {p : Program Unit} (hp : rules.Starts p) (s : System) :
    rules.Reaches s (s.finish chance p) := by
  have hfinish := reaches_finish h p s.toShared s.jobs []
  rw [List.append_nil] at hfinish
  exact .head (.start hp) hfinish

theorem reaches_finishFirst (h : ∀ x effect, rules.Befalls x effect (chance effect))
    (s : System) : rules.Reaches s (s.finishFirst chance) := by
  obtain ⟨x, - | ⟨p, rest⟩⟩ := s
  · exact .refl
  · exact reaches_finish h p x [] rest

end Rules

/-! ### A service on its own, where calls may fail -/

/-- The system some time later, nothing having happened in it. -/
def System.later (s : System) (pause : Nat) : System := { s with now := ⟨s.now.ticks + pause⟩ }

/-- The course of a service on its own in which the `k`th effect comes after a pause, and fails with
`failures k` if it is a call and there is one. -/
def Course.trying (pauses : Nat → Nat) (failures : Nat → Option Failure) :
    Course (.alone fun _ _ ↦ True) where
  meanwhile k s := s.later (pauses k)
  chance k _ _ := { failure := failures k }
  reaches k _ := .single (.tick (Int.le_add_of_nonneg_right (Int.natCast_nonneg (pauses k))))
  befalls _ _ _ := trivial

namespace Course

variable {α : Type} {pauses : Nat → Nat} {failures : Nat → Option Failure} {k : Nat} {s : System}
  {call : StoreCall}

end Course

end Licensing
