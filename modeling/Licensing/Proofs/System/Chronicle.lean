import Licensing.ApiKey.Keyring
import Licensing.License.Amending
import Licensing.License.Sweep
import Licensing.License.Validation
import Licensing.Proofs.System.Course
import Mathlib.Data.List.Induction
import Mathlib.Data.List.Perm.Subperm

/-!
# Runs with a record

Some things can only be said of a run by looking back: which reading a write goes back to, who has
meddled in between, whether a key was ever revoked. A `Chronicle` is a system that keeps a record.
Whatever runs in it is a thread of known `Origin`, a demand that was made or a task that some thread
left behind, and each effect of a thread becomes an `Event` with what was shared before and after.

Three facts about the record carry all that is proved of it (`Chronicle.Reached.sound`):

* the events are linked (`Linked`): each starts from what the one before has left, only time may
  have passed;
* each event is proper (`Event.Proper`): it is what the program of its thread has next, given all
  that the thread has done before, and a task was handed over before it does anything;
* each thread has followed its program (`Program.Follows`), so what a thread ends with can be told
  from the events.

Nothing is missed by looking at chronicles only: any run of a system, in which the same demands are
made, is the run of some chronicle (`Chronicle.exists_records`).

Shape decisions:

* A thread need not have another effect ever again. A task that is dropped, is given up, or goes
  down with the service is such a thread, so losses need no steps of their own.
* The record only grows, and statements about moments are statements about how it splits.
-/

namespace Licensing

/-! ### Where programs come from -/

/-- What may be asked of the service. -/
inductive Demand
  | validate (request : ValidationRequest)
  | sweep (most limit : Nat) (trigger : Sweep.Trigger)
  | issue (request : IssueRequest)
  | amend (id : Uuid) (amendment : Amendment)
  | assignStatus (id : Uuid) (status : Status)
  | fetch (id : Uuid)
  | browse (query : ListQuery)
  | summary
  | createKey (format : CredentialFormat) (description : String) (productId : Option Uuid)
  | revokeKey (id : Uuid)
  | browseKeys
  | authenticate (format : CredentialFormat) (presented : Option String)

namespace Demand

/-- What a demand is answered with. -/
abbrev Answer : Demand → Type
  | validate _ => Except Failure Verdict
  | sweep _ _ _ => Except Failure (Option Sweep.Report)
  | issue _ => Except Failure License
  | amend _ _ => Except Failure License
  | assignStatus _ _ => Except Failure Unit
  | fetch _ => Except Failure License
  | browse _ => Except Failure Page
  | summary => Except Failure Dashboard
  | createKey _ _ _ => Except Failure ApiKey.Created
  | revokeKey _ => Except Failure Unit
  | browseKeys => Except Failure (List ApiKey)
  | authenticate _ _ => AuthResult

/-- What is done on a demand. -/
def program : (demand : Demand) → Program demand.Answer
  | validate request => License.validate request
  | sweep most limit trigger => Sweep.pass most limit trigger
  | issue request => License.issue request
  | amend id amendment => License.amend id amendment
  | assignStatus id status => License.assignStatus id status
  | fetch id => License.fetch id
  | browse query => License.browse query
  | summary => License.summary
  | createKey format description productId => ApiKey.create format description productId
  | revokeKey id => ApiKey.revoke id
  | browseKeys => ApiKey.browse
  | authenticate format presented => ApiKey.authenticate format presented

end Demand

/-- Where a thread comes from: a demand, or a task that another thread left behind. -/
inductive Origin
  | demand (asked : Demand)
  | task (work : Task) (parent : Nat)

namespace Origin

/-- What a thread ends with. -/
abbrev Answer : Origin → Type
  | demand asked => asked.Answer
  | task _ _ => Except Failure Unit

/-- What a thread does from its start on. -/
def program : (origin : Origin) → Program origin.Answer
  | demand asked => asked.program
  | task work _ => work.program

end Origin

/-! ### The record -/

/-- A program in progress: where it comes from and what is left of it. -/
structure Thread where
  origin : Origin
  rest : Program origin.Answer

/-- The thread of a task that another thread left behind. -/
def Thread.ofTask (parent : Nat) (work : Task) : Thread := ⟨.task work parent, work.program⟩

/-- An effect of a thread, with what was shared before and after it. -/
structure Event where
  thread : Nat
  origin : Origin
  before : Shared
  turn : Turn
  after : Shared

/-- The thread that decided on an event: its own, or for a task the one that left it behind. -/
def Event.source (e : Event) : Nat :=
  match e.origin with
  | .demand _ => e.thread
  | .task _ parent => parent

/-- The answer and what is shared afterwards are what chance makes of the effect. -/
def Event.Answered (e : Event) : Prop :=
  ∃ chance, e.before.perform chance e.turn.1 = (e.turn.2, e.after)

/-- **All that an event can do**: it changes nothing, or it is a call that was answered by the
stores. -/
theorem Event.Answered.cases {e : Event} (h : e.Answered) : e.after.stores = e.before.stores ∨
    ∃ call, e.turn = ⟨.store call, (e.before.stores.answer e.before.now call).1⟩ ∧
      e.after.stores = (e.before.stores.answer e.before.now call).2 := by
  obtain ⟨k, origin, before, ⟨effect, answer⟩, after⟩ := e
  obtain ⟨chance, hperform⟩ := h
  cases effect with
  | store call =>
    rcases hfailure : chance.failure with - | failure
    · obtain ⟨hanswer, hafter⟩ :=
        Prod.mk.inj ((Shared.perform_store_of_none hfailure).symm.trans hperform)
      exact .inr ⟨call, congrArg (Sigma.mk _) hanswer.symm, congrArg Shared.stores hafter.symm⟩
    · obtain ⟨-, hafter⟩ :=
        Prod.mk.inj ((Shared.perform_store_of_failure hfailure).symm.trans hperform)
      exact .inl (congrArg Shared.stores hafter.symm)
  | _ => exact .inl (congrArg (·.2.stores) hperform).symm

/-- A call that is answered without a failure is answered by the stores. -/
theorem Event.Answered.answer_eq {e : Event} (h : e.Answered) {call : StoreCall}
    {value : call.Answer} (hturn : e.turn = ⟨.store call, .ok value⟩) :
    e.before.stores.answer e.before.now call = (.ok value, e.after.stores) := by
  obtain ⟨k, origin, before, turn, after⟩ := e
  obtain ⟨chance, hperform⟩ := h
  cases hturn
  rcases hfailure : chance.failure with - | failure
  · obtain ⟨hanswer, hafter⟩ :=
      Prod.mk.inj ((Shared.perform_store_of_none hfailure).symm.trans hperform)
    exact Prod.ext hanswer (congrArg Shared.stores hafter)
  · cases (Prod.mk.inj ((Shared.perform_store_of_failure hfailure).symm.trans hperform)).1

/-- No effect takes time. -/
theorem Event.Answered.now_eq {e : Event} (h : e.Answered) : e.after.now = e.before.now := by
  obtain ⟨chance, hperform⟩ := h
  rw [← congrArg (·.2.now) hperform]
  exact e.before.perform_now _

/-- The clock shows the time. -/
theorem Event.Answered.clock_eq {e : Event} (h : e.Answered) {now : Instant}
    (hturn : e.turn = ⟨.clock, now⟩) : e.before.now = now := by
  obtain ⟨chance, hperform⟩ := h
  rw [hturn] at hperform
  exact congrArg Prod.fst hperform

/-- What a thread has done, in order. -/
def turnsOf (k : Nat) (events : List Event) : List Turn :=
  (events.filter (·.thread = k)).map (·.turn)

/-- A system with a record of all that was done in it. -/
structure Chronicle extends Shared where
  threads : List Thread := []
  events : List Event := []

namespace Chronicle

/-- A thread is started. -/
def start (c : Chronicle) (origin : Origin) : Chronicle :=
  { c with threads := c.threads ++ [⟨origin, origin.program⟩] }

/-- A thread has its next effect, if it has any left. A task that finds room becomes a thread. -/
def act (c : Chronicle) (k : Nat) (chance : Chance) : Chronicle :=
  match c.threads[k]? with
  | some ⟨origin, .act effect next⟩ =>
    let done := c.toShared.perform chance effect
    { toShared := done.2
      threads := c.threads.set k ⟨origin, next done.1⟩ ++
        if chance.room then effect.tasks.map (Thread.ofTask k) else []
      events := c.events ++ [⟨k, origin, c.toShared, ⟨effect, done.1⟩, done.2⟩] }
  | _ => c

/-- What can be reached from `x` by demands of a kind: time passes, a demand is made, a thread has
its next effect. -/
inductive Reached (admits : Demand → Prop) (x : Shared) : Chronicle → Prop
  | blank : Reached admits x { toShared := x }
  | tick {c : Chronicle} {now : Instant} (h : Reached admits x c) (hnow : c.now ≤ now) :
      Reached admits x { c with now }
  | start {c : Chronicle} {demand : Demand} (h : Reached admits x c) (hdemand : admits demand) :
      Reached admits x (c.start (.demand demand))
  | act {c : Chronicle} (h : Reached admits x c) (k : Nat) (chance : Chance) :
      Reached admits x (c.act k chance)

end Chronicle

/-! ### Following a program -/

namespace Program

variable {α : Type}

/-- The program, having had these turns, has come to `q`. -/
inductive Follows : Program α → List Turn → Program α → Prop
  | refl (p : Program α) : Follows p [] p
  | step {effect : Effect} {next : effect.Answer → Program α} {answer : effect.Answer}
      {turns : List Turn} {q : Program α} (h : Follows (next answer) turns q) :
      Follows (.act effect next) (⟨effect, answer⟩ :: turns) q

theorem Follows.snoc {p : Program α} {turns : List Turn} {effect : Effect}
    {next : effect.Answer → Program α} (h : p.Follows turns (.act effect next))
    (answer : effect.Answer) : p.Follows (turns ++ [⟨effect, answer⟩]) (next answer) := by
  generalize hq : Program.act effect next = q at h
  induction h with
  | refl p =>
    subst hq
    exact .step (.refl _)
  | step _ ih => exact .step (ih hq)

end Program

/-! ### The turns of a thread -/

@[simp] theorem turnsOf_nil (k : Nat) : turnsOf k [] = [] := rfl

theorem turnsOf_append (k : Nat) (events more : List Event) :
    turnsOf k (events ++ more) = turnsOf k events ++ turnsOf k more := by
  simp [turnsOf]

theorem turnsOf_cons (k : Nat) (e : Event) (events : List Event) :
    turnsOf k (e :: events) = if e.thread = k then e.turn :: turnsOf k events
      else turnsOf k events := by
  by_cases h : e.thread = k <;> simp [turnsOf, h]

theorem turnsOf_eq_nil {k : Nat} {events : List Event} (h : ∀ e ∈ events, e.thread ≠ k) :
    turnsOf k events = [] := by
  have hnone : events.filter (·.thread = k) = [] :=
    List.filter_eq_nil_iff.2 fun e he ↦ by simp [h e he]
  rw [turnsOf, hnone, List.map_nil]

/-- **A turn is an event**: where the turns of a thread split, so does the record. -/
theorem exists_of_turnsOf_eq {k : Nat} {events : List Event} {before after : List Turn}
    {turn : Turn} (h : turnsOf k events = before ++ turn :: after) :
    ∃ past e future, events = past ++ e :: future ∧ e.thread = k ∧ e.turn = turn ∧
      turnsOf k past = before ∧ turnsOf k future = after := by
  induction events generalizing before with
  | nil => simp at h
  | cons e events ih =>
    rw [turnsOf_cons] at h
    split at h
    · next hk =>
      rcases before with - | ⟨first, before⟩
      · obtain ⟨hturn, hafter⟩ := List.cons.inj h
        exact ⟨[], e, events, rfl, hk, hturn, rfl, hafter⟩
      · obtain ⟨hfirst, hrest⟩ := List.cons.inj h
        obtain ⟨past, found, future, rfl, hfound, hturn, hbefore, hafter⟩ := ih hrest
        refine ⟨e :: past, found, future, rfl, hfound, hturn, ?_, hafter⟩
        rw [turnsOf_cons, if_pos hk, hbefore, hfirst]
    · next hk =>
      obtain ⟨past, found, future, rfl, hfound, hturn, hbefore, hafter⟩ := ih h
      refine ⟨e :: past, found, future, rfl, hfound, hturn, ?_, hafter⟩
      rw [turnsOf_cons, if_neg hk, hbefore]

/-- The same for two turns, one right after the other. -/
theorem exists_pair_of_turnsOf_eq {k : Nat} {events : List Event} {before after : List Turn}
    {first second : Turn} (h : turnsOf k events = before ++ first :: second :: after) :
    ∃ past e between e' future, events = past ++ e :: (between ++ e' :: future) ∧
      (e.thread = k ∧ e.turn = first) ∧ e'.thread = k ∧ e'.turn = second := by
  obtain ⟨past, e, rest, rfl, hk, hfirst, -, hrest⟩ := exists_of_turnsOf_eq h
  obtain ⟨between, e', future, rfl, hk', hsecond, -, -⟩ :=
    exists_of_turnsOf_eq (hrest.trans (List.nil_append _).symm)
  exact ⟨past, e, between, e', future, rfl, ⟨hk, hfirst⟩, hk', hsecond⟩

/-- Where a record with a last event splits: at that event, or before. -/
theorem split_snoc {events past future : List Event} {last e : Event}
    (h : events ++ [last] = past ++ e :: future) :
    past = events ∧ e = last ∨ ∃ earlier, events = past ++ e :: earlier := by
  rcases List.eq_nil_or_concat future with rfl | ⟨earlier, other, rfl⟩
  · obtain ⟨hpast, he⟩ := List.append_inj' h rfl
    exact .inl ⟨hpast.symm, (List.singleton_inj.1 he).symm⟩
  · rw [List.concat_eq_append, ← List.cons_append, ← List.append_assoc] at h
    exact .inr ⟨earlier, (List.append_inj' h rfl).1⟩

/-! ### Linked events -/

/-- Nothing happens, but time may pass. -/
def Shared.Waits (x y : Shared) : Prop := x.stores = y.stores ∧ x.now ≤ y.now

namespace Shared.Waits

variable {x y z : Shared}

protected theorem refl (x : Shared) : x.Waits x := ⟨rfl, Int.le_refl _⟩

theorem trans (hxy : x.Waits y) (hyz : y.Waits z) : x.Waits z :=
  ⟨hxy.1.trans hyz.1, Instant.le_trans hxy.2 hyz.2⟩

end Shared.Waits

/-- The events lead from `x` to `y`. -/
def Linked (x : Shared) : List Event → Shared → Prop
  | [], y => x.Waits y
  | e :: events, y => x.Waits e.before ∧ e.Answered ∧ Linked e.after events y

namespace Linked

variable {x y z : Shared} {e : Event} {past future events : List Event}

theorem append_cons_iff : Linked x (past ++ e :: future) y ↔
    Linked x past e.before ∧ e.Answered ∧ Linked e.after future y := by
  induction past generalizing x with
  | nil => exact Iff.rfl
  | cons first past ih => simp only [List.cons_append, Linked, ih, and_assoc]

theorem waits (h : Linked x events y) (hyz : y.Waits z) : Linked x events z := by
  induction events generalizing x with
  | nil => exact h.trans hyz
  | cons e events ih => exact ⟨h.1, h.2.1, ih h.2.2⟩

theorem snoc (h : Linked x events e.before) (he : e.Answered) : Linked x (events ++ [e]) e.after :=
  append_cons_iff.2 ⟨h, he, .refl _⟩

/-- Time never goes back. -/
theorem now_le (h : Linked x events y) : x.now ≤ y.now := by
  induction events generalizing x with
  | nil => exact h.2
  | cons e events ih =>
    obtain ⟨hwaits, hanswered, hrest⟩ := h
    have hle : e.before.now ≤ y.now := hanswered.now_eq ▸ ih hrest
    exact Instant.le_trans hwaits.2 hle

theorem now_le_of_mem (h : Linked x events y) (he : e ∈ events) : e.before.now ≤ y.now := by
  obtain ⟨past, future, rfl⟩ := List.append_of_mem he
  obtain ⟨-, hanswered, hrest⟩ := append_cons_iff.1 h
  exact hanswered.now_eq ▸ hrest.now_le

/-- **What every event keeps holds at all times**, where an event may lean on what held before each
of the earlier ones. -/
theorem invariant {P : Shared → Prop} (h : Linked x events y) (hx : P x)
    (hwaits : ∀ {y z}, P y → y.Waits z → P z)
    (hevent : ∀ {past e future}, events = past ++ e :: future → e.Answered →
      (∀ earlier ∈ past, P earlier.before) → P e.before → P e.after) :
    P y ∧ ∀ e ∈ events, P e.before := by
  -- The record is read from its end: what is left of it keeps the same past.
  induction events using List.reverseRecOn generalizing y with
  | nil =>
    have hxy : x.Waits y := h
    exact ⟨hwaits hx hxy, fun _ he ↦ absurd he List.not_mem_nil⟩
  | append_singleton events e ih =>
    obtain ⟨hlinked, hanswered, hafter⟩ := append_cons_iff.1 h
    have hearlier : ∀ {past other future}, events = past ++ other :: future → other.Answered →
        (∀ earlier ∈ past, P earlier.before) → P other.before → P other.after := by
      rintro past other future rfl
      exact hevent (List.append_assoc past (other :: future) [e])
    obtain ⟨hbefore, hall⟩ := ih hlinked hearlier
    refine ⟨hwaits (hevent rfl hanswered hall hbefore) hafter, fun other hother ↦ ?_⟩
    rcases List.mem_append.1 hother with hmem | hmem
    · exact hall other hmem
    · cases List.mem_singleton.1 hmem
      exact hbefore

end Linked

/-! ### Proper events -/

/-- The origin is in order: the demand is of a kind that may be made, or the task was handed over by
its parent. -/
def Origin.InOrder (admits : Demand → Prop) (past : List Event) : Origin → Prop
  | demand asked => admits asked
  | task work parent => ∃ e ∈ past, e.thread = parent ∧ e.turn = ⟨.submit work, ()⟩

theorem Origin.InOrder.mono {admits : Demand → Prop} {past : List Event} {origin : Origin}
    (h : origin.InOrder admits past) (more : List Event) :
    origin.InOrder admits (past ++ more) := by
  cases origin with
  | demand asked => exact h
  | task work parent =>
    obtain ⟨e, he, hsubmit⟩ := h
    exact ⟨e, List.mem_append_left more he, hsubmit⟩

/-- The event is in order after those before it: it is what its thread has next. -/
structure Event.Proper (admits : Demand → Prop) (past : List Event) (e : Event) : Prop where
  origin : e.origin.InOrder admits past
  follows : ∃ next, e.origin.program.Follows (turnsOf e.thread past) (.act e.turn.1 next)
  same : ∀ earlier ∈ past, earlier.thread = e.thread → earlier.origin = e.origin

namespace Chronicle

/-- The record fits the system. -/
structure Sound (admits : Demand → Prop) (x : Shared) (c : Chronicle) : Prop where
  linked : Linked x c.events c.toShared
  proper : ∀ {past e future}, c.events = past ++ e :: future → e.Proper admits past
  origin : ∀ {k : Nat} {thread : Thread}, c.threads[k]? = some thread →
    thread.origin.InOrder admits c.events
  follows : ∀ {k : Nat} {thread : Thread}, c.threads[k]? = some thread →
    thread.origin.program.Follows (turnsOf k c.events) thread.rest
  known : ∀ e ∈ c.events, ∃ thread, c.threads[e.thread]? = some thread ∧ thread.origin = e.origin

variable {admits : Demand → Prop} {x : Shared} {c : Chronicle}

/-- What having an effect does to a chronicle: the effect is put on record, the thread goes on with
the answer, and new threads are tasks that the effect has handed over. -/
structure Acts (c : Chronicle) (e : Event) (after : Chronicle) : Prop where
  before : e.before = c.toShared
  answered : e.Answered
  shared : after.toShared = e.after
  events : after.events = c.events ++ [e]
  threads : ∃ next born,
    c.threads[e.thread]? = some ⟨e.origin, .act e.turn.1 next⟩ ∧
    after.threads = c.threads.set e.thread ⟨e.origin, next e.turn.2⟩ ++ born ∧
    ∀ thread ∈ born, ∃ work, thread = .ofTask e.thread work ∧ e.turn = ⟨.submit work, ()⟩

/-- A task that is left behind was submitted. -/
private theorem turn_eq_of_mem_tasks {effect : Effect} {work : Task} (h : work ∈ effect.tasks)
    (answer : effect.Answer) : (⟨effect, answer⟩ : Turn) = ⟨.submit work, ()⟩ := by
  cases effect with
  | submit other => rw [List.mem_singleton.1 h]
  | _ => exact absurd h List.not_mem_nil

/-- **All that can come of letting a thread act**: nothing, or its next effect. -/
theorem act_cases (c : Chronicle) (k : Nat) (chance : Chance) :
    c.act k chance = c ∨ ∃ e, c.Acts e (c.act k chance) := by
  unfold act
  split
  · next origin effect next hthread =>
    refine .inr ⟨⟨k, origin, c.toShared, ⟨effect, _⟩, _⟩, rfl, ⟨chance, rfl⟩, rfl, rfl,
      next, _, hthread, rfl, fun thread hborn ↦ ?_⟩
    split at hborn
    · obtain ⟨work, hwork, rfl⟩ := List.mem_map.1 hborn
      exact ⟨work, rfl, turn_eq_of_mem_tasks hwork _⟩
    · exact absurd hborn List.not_mem_nil
  · exact .inl rfl

/-- Who has had an effect is one of the threads. -/
theorem Sound.thread_lt (h : c.Sound admits x) {e : Event} (he : e ∈ c.events) :
    e.thread < c.threads.length := by
  obtain ⟨thread, hthread, -⟩ := h.known e he
  exact (List.getElem?_eq_some_iff.1 hthread).1

/-- Whoever is about to start has done nothing yet. -/
theorem Sound.turnsOf_of_le (h : c.Sound admits x) {k : Nat} (hk : c.threads.length ≤ k) :
    turnsOf k c.events = [] :=
  turnsOf_eq_nil fun _ he heq ↦ Nat.not_le.2 (h.thread_lt he) (heq ▸ hk)

/-- More threads do not disturb those that are there. -/
theorem Sound.known_append (h : c.Sound admits x) (born : List Thread) {e : Event}
    (he : e ∈ c.events) :
    ∃ thread, (c.threads ++ born)[e.thread]? = some thread ∧ thread.origin = e.origin := by
  obtain ⟨thread, hthread, horigin⟩ := h.known e he
  exact ⟨thread, by rw [List.getElem?_append_left (h.thread_lt he), hthread], horigin⟩

theorem Sound.start (h : c.Sound admits x) {asked : Demand} (hasked : admits asked) :
    (c.start (.demand asked)).Sound admits x := by
  have hthreads : ∀ {k : Nat} {thread : Thread},
      (c.threads ++ [⟨.demand asked, asked.program⟩])[k]? = some thread →
        c.threads[k]? = some thread ∨
          c.threads.length ≤ k ∧ thread = ⟨.demand asked, asked.program⟩ := by
    intro k thread hthread
    rcases Nat.lt_or_ge k c.threads.length with hk | hk
    · exact .inl (List.getElem?_append_left hk ▸ hthread)
    · rw [List.getElem?_append_right hk] at hthread
      exact .inr ⟨hk, List.mem_singleton.1 (List.mem_of_getElem? hthread)⟩
  refine ⟨h.linked, h.proper, fun hthread ↦ ?_, fun hthread ↦ ?_, fun e ↦ h.known_append _⟩
  · rcases hthreads hthread with hold | ⟨-, rfl⟩
    · exact h.origin hold
    · exact hasked
  · rcases hthreads hthread with hold | ⟨hk, rfl⟩
    · exact h.follows hold
    · show Program.Follows _ (turnsOf _ c.events) _
      rw [h.turnsOf_of_le hk]
      exact .refl _

/-- The next effect of a thread is proper, whatever comes of it. -/
theorem Sound.proper_next (h : c.Sound admits x) {e : Event}
    {next : e.turn.1.Answer → Program e.origin.Answer}
    (hthread : c.threads[e.thread]? = some ⟨e.origin, .act e.turn.1 next⟩) :
    e.Proper admits c.events where
  origin := h.origin hthread
  follows := ⟨next, h.follows hthread⟩
  same earlier hearlier hk := by
    obtain ⟨thread, hknown, horigin⟩ := h.known earlier hearlier
    rw [hk, hthread] at hknown
    rw [← horigin, ← Option.some.inj hknown]

/-- A thread that is there after an effect is the one that had it, another one that was there, or a
task just left behind. -/
private theorem getElem?_threads {threads born : List Thread} {k j : Nat} {moved thread : Thread}
    (h : (threads.set k moved ++ born)[j]? = some thread) :
    j = k ∧ thread = moved ∨ j ≠ k ∧ threads[j]? = some thread ∨
      threads.length ≤ j ∧ thread ∈ born := by
  rcases Nat.lt_or_ge j threads.length with hj | hj
  · rw [List.getElem?_append_left (by simpa using hj), List.getElem?_set] at h
    split at h
    · next hkj =>
      rw [if_pos (hkj ▸ hj)] at h
      exact .inl ⟨hkj.symm, (Option.some.inj h).symm⟩
    · next hkj => exact .inr (.inl ⟨Ne.symm hkj, h⟩)
  · rw [List.getElem?_append_right (by simpa using hj)] at h
    exact .inr (.inr ⟨hj, List.mem_of_getElem? h⟩)

/-- **An effect is put on record.** -/
theorem Sound.acts (h : c.Sound admits x) {e : Event} {after : Chronicle} (hacts : c.Acts e after) :
    after.Sound admits x := by
  obtain ⟨hbefore, hanswered, hshared, hevents, next, born, hthread, hthreads, hborn⟩ := hacts
  have hlt : e.thread < c.threads.length := (List.getElem?_eq_some_iff.1 hthread).1
  have hturns : ∀ j, turnsOf j after.events =
      turnsOf j c.events ++ if e.thread = j then [e.turn] else [] := by
    intro j
    rw [hevents, turnsOf_append, turnsOf_cons, turnsOf_nil]
  constructor
  · rw [hevents, hshared]
    exact (hbefore ▸ h.linked).snoc hanswered
  · intro past other future hsplit
    rw [hevents] at hsplit
    rcases split_snoc hsplit with ⟨rfl, rfl⟩ | ⟨earlier, hold⟩
    · exact h.proper_next hthread
    · exact h.proper hold
  · intro j thread hj
    rw [hevents]
    rw [hthreads] at hj
    rcases getElem?_threads hj with ⟨rfl, rfl⟩ | ⟨-, hold⟩ | ⟨-, hmem⟩
    · exact (h.origin hthread).mono [e]
    · exact (h.origin hold).mono [e]
    · obtain ⟨work, rfl, hsubmit⟩ := hborn _ hmem
      exact ⟨e, by simp, rfl, hsubmit⟩
  · intro j thread hj
    rw [hturns]
    rw [hthreads] at hj
    rcases getElem?_threads hj with ⟨rfl, rfl⟩ | ⟨hne, hold⟩ | ⟨hle, hmem⟩
    · rw [if_pos rfl]
      exact (h.follows hthread).snoc _
    · rw [if_neg hne.symm, List.append_nil]
      exact h.follows hold
    · obtain ⟨work, rfl, -⟩ := hborn _ hmem
      rw [if_neg (Nat.ne_of_lt (Nat.lt_of_lt_of_le hlt hle)), h.turnsOf_of_le hle]
      exact .refl _
  · intro other hother
    rw [hthreads]
    rw [hevents] at hother
    rcases List.mem_append.1 hother with hold | hnew
    · obtain ⟨thread, hknown, horigin⟩ := h.known other hold
      rw [List.getElem?_append_left (by simpa using h.thread_lt hold), List.getElem?_set]
      by_cases hk : e.thread = other.thread
      · rw [if_pos hk, if_pos (hk ▸ hlt)]
        rw [← hk, hthread] at hknown
        exact ⟨_, rfl, (congrArg Thread.origin (Option.some.inj hknown)).trans horigin⟩
      · rw [if_neg hk]
        exact ⟨thread, hknown, horigin⟩
    · cases List.mem_singleton.1 hnew
      exact ⟨⟨e.origin, next e.turn.2⟩, by simp [List.getElem?_append_left, hlt], rfl⟩

/-- **Whatever is reached has a record that fits.** -/
theorem Reached.sound (h : Reached admits x c) : c.Sound admits x := by
  induction h with
  | blank => exact ⟨.refl x, by simp, by simp, by simp, fun _ he ↦ absurd he List.not_mem_nil⟩
  | tick _ hnow ih =>
    exact ⟨ih.linked.waits ⟨rfl, hnow⟩, ih.proper, ih.origin, ih.follows, ih.known⟩
  | start _ hasked ih => exact ih.start hasked
  | @act c _ k chance ih =>
    rcases c.act_cases k chance with heq | ⟨e, hacts⟩
    · rw [heq]
      exact ih
    · exact ih.acts hacts

end Chronicle

/-! ### Every run has a record -/

/-- What is left of a thread, as a job: what it ends with is not waited for. -/
def Thread.job (thread : Thread) : Program Unit := thread.rest.bind fun _ ↦ .done ()

/-- A thread whose job has an effect next has it next itself. -/
theorem Thread.rest_of_job_eq {thread : Thread} {effect : Effect}
    {next : effect.Answer → Program Unit} (h : thread.job = .act effect next) :
    ∃ rest, thread = ⟨thread.origin, .act effect rest⟩ ∧
      next = fun answer ↦ (rest answer).bind fun _ ↦ .done () := by
  obtain ⟨origin, p⟩ := thread
  cases p with
  | done value => cases h
  | act effect' rest =>
    cases h
    exact ⟨rest, rfl, rfl⟩

/-- The rules of a service of which demands of a kind are made. -/
def Rules.serving (admits : Demand → Prop) : Rules where
  Starts p := ∃ asked, admits asked ∧ p = asked.program.bind fun _ ↦ .done ()

namespace Chronicle

variable {admits : Demand → Prop} {x : Shared} {c : Chronicle}

/-- The system is on record: it shares the same, and its jobs are among the threads. -/
structure Records (c : Chronicle) (s : System) : Prop where
  shared : c.toShared = s.toShared
  jobs : s.jobs.Subperm (c.threads.map Thread.job)

/-- Where one of the jobs goes on, so does the thread that it is recorded as. -/
private theorem subperm_set {jobs all : List (Program Unit)} {k : Nat} {p : Program Unit}
    (hk : all[k]? = some p) (h : (p :: jobs).Subperm all) (q : Program Unit) :
    (q :: jobs).Subperm (all.set k q) := by
  obtain ⟨hlt, hp⟩ := List.getElem?_eq_some_iff.1 hk
  have hall : (p :: all.eraseIdx k).Perm all := hp ▸ List.getElem_cons_eraseIdx_perm hlt
  have hothers : jobs.Subperm (all.eraseIdx k) :=
    (List.subperm_cons p).1 (h.trans hall.symm.subperm)
  exact ((List.subperm_cons q).2 hothers).trans (List.set_perm_cons_eraseIdx hlt q).symm.subperm

/-- A job that has its next effect is a thread that acts. -/
theorem Records.act {before after : List (Program Unit)} {effect : Effect}
    {next : effect.Answer → Program Unit}
    (h : c.Records ⟨x, before ++ .act effect next :: after⟩) (chance : Chance) :
    ∃ k, (c.act k chance).Records
      (let done := System.perform ⟨x, before ++ after⟩ chance effect
       { done.2 with jobs := done.2.jobs ++ [next done.1] }) := by
  obtain ⟨rfl, hjobs⟩ := h
  have hmem : Program.act effect next ∈ c.threads.map Thread.job := hjobs.subset (by simp)
  obtain ⟨k, hk⟩ := List.mem_iff_getElem?.1 hmem
  obtain ⟨thread, hthread, hjob⟩ := Option.map_eq_some_iff.1 (List.getElem?_map ▸ hk)
  obtain ⟨rest, hrest, hnext⟩ := Thread.rest_of_job_eq hjob
  rw [hrest] at hthread
  refine ⟨k, ?_, ?_⟩
  · simp only [Chronicle.act, hthread]
    rfl
  have hmoved := subperm_set hk (List.perm_middle.symm.subperm.trans hjobs)
    (next (c.toShared.perform chance effect).1)
  -- The tasks that are left behind are the same jobs either way.
  have hborn : ((if chance.room then effect.tasks.map (Thread.ofTask k) else []).map Thread.job) =
      if chance.room then effect.tasks.map (·.program.job) else [] := by
    split
    · rw [List.map_map]
      rfl
    · rfl
  simp only [Chronicle.act, hthread, System.perform, List.map_append, List.map_set, hborn]
  rw [hnext] at hmoved ⊢
  exact (List.perm_append_singleton _ _).subperm.trans (hmoved.append (List.Subperm.refl _))

/-- **Every run of a system has a record.** What a system comes to from nothing but what is shared,
a chronicle comes to as well: it shares the same, and whatever is in progress is one of its
threads. -/
theorem exists_records {s : System} (h : (Rules.serving admits).Reaches ⟨x, []⟩ s) :
    ∃ c, Reached admits x c ∧ c.Records s := by
  induction h with
  | refl => exact ⟨_, .blank, rfl, List.nil_subperm⟩
  | tail _ hstep ih =>
    obtain ⟨c, hreached, hrecords⟩ := ih
    cases hstep with
    | tick hnow =>
      have hle : c.now ≤ _ := hrecords.shared ▸ hnow
      exact ⟨_, hreached.tick hle, by rw [hrecords.shared], hrecords.jobs⟩
    | start hstarts =>
      obtain ⟨asked, hasked, rfl⟩ := hstarts
      refine ⟨_, hreached.start hasked, hrecords.shared, ?_⟩
      rw [start, List.map_append]
      exact hrecords.jobs.append (List.Subperm.refl _)
    | @act x before after effect next chance _ =>
      obtain ⟨k, hacts⟩ := hrecords.act chance
      exact ⟨_, hreached.act k chance, hacts⟩
    | @leave x before after p =>
      have hleft : (before ++ after).Subperm (before ++ p :: after) :=
        ((List.sublist_cons_self p after).append_left before).subperm
      exact ⟨c, hreached, hrecords.shared, hleft.trans hrecords.jobs⟩

end Chronicle

end Licensing
