import Licensing.Proofs.System.Course

/-!
# Contracts of programs

How to prove something of a program among other programs without looking at the others. A
`Contract` says what the program relies on between its effects (`Relies`) and what each of its
effects does in return (`Does`). `Contract.Meets` follows the program effect by effect, for every
answer that it can get, to a postcondition on its turns, its value and what is shared at its end.
Being a recursion over the program it composes: `meets_bind`.

`Contract.watch_of_meets` carries a contract over to every course under an invariant of the whole
system. For several programs at once the invariant comes from a `Pact`: something that always holds,
a relation that only ever leads forward, and what is granted to a task when it is submitted. If all
that may be started keeps the pact (`Pact.Covers`), then so does every system that is reached
(`Pact.kept_of_reaches`), and a watched program that keeps it reaches its postcondition
(`Pact.watch_of_keeps`).
-/

namespace Licensing

/-! ### One program -/

/-- What a program relies on between its effects, and what each of its effects does. -/
structure Contract where
  Relies : Shared → Shared → Prop
  Does : Shared → Effect → Shared → Prop := fun _ _ _ ↦ True

/-- What is said of a program at its end: of its turns, its value and what is shared. -/
abbrev Post (α : Type) := List Turn → α → Shared → Prop

namespace Contract

/-- The program, started where `x` is shared, meets the contract at every effect and the
postcondition at its end, whatever answers it gets. -/
def Meets (contract : Contract) (rules : Rules) {α : Type} : Program α → Post α → Shared → Prop
  | .done value, post, x => post [] value x
  | .act effect next, post, x =>
    ∀ y, contract.Relies x y → ∀ chance, rules.Befalls y effect chance →
      let done := y.perform chance effect
      contract.Does y effect done.2 ∧
        Meets contract rules (next done.1) (fun turns ↦ post (⟨effect, done.1⟩ :: turns)) done.2

variable {contract : Contract} {rules : Rules} {α β : Type}

theorem Meets.mono {p : Program α} {post post' : Post α} {x : Shared}
    (h : contract.Meets rules p post x)
    (hpost : ∀ turns value y, post turns value y → post' turns value y) :
    contract.Meets rules p post' x := by
  induction p generalizing post post' x with
  | done value => exact hpost _ _ _ h
  | act effect next ih =>
    intro y hxy chance hchance
    obtain ⟨hdoes, hnext⟩ := h y hxy chance hchance
    exact ⟨hdoes, ih _ hnext fun turns ↦ hpost _⟩

theorem meets_congr {p : Program α} {post post' : Post α} {x : Shared}
    (h : ∀ turns value y, post turns value y ↔ post' turns value y) :
    contract.Meets rules p post x ↔ contract.Meets rules p post' x :=
  ⟨fun hp ↦ hp.mono fun turns value y ↦ (h turns value y).1,
    fun hp ↦ hp.mono fun turns value y ↦ (h turns value y).2⟩

/-- **One program after another.** -/
theorem meets_bind {p : Program α} {f : α → Program β} {post : Post β} {x : Shared} :
    contract.Meets rules (p.bind f) post x ↔
      contract.Meets rules p
        (fun turns value ↦ contract.Meets rules (f value) fun more ↦ post (turns ++ more)) x := by
  induction p generalizing post x with
  | done value => exact Iff.rfl
  | act effect next ih => simp only [Program.bind, Meets, ih, List.cons_append]

theorem meets_map {p : Program α} {g : α → β} {post : Post β} {x : Shared} :
    contract.Meets rules (p.bind fun value ↦ .done (g value)) post x ↔
      contract.Meets rules p (fun turns value ↦ post turns (g value)) x := by
  induction p generalizing post x with
  | done value => exact Iff.rfl
  | act effect next ih => simp only [Program.bind, Meets, ih]

/-- The same for operations: the second is only reached when the first succeeds. -/
theorem meets_operation_bind {op : Operation α} {f : α → Operation β}
    {post : Post (Except Failure β)} {x : Shared} :
    contract.Meets rules (op >>= f : Operation β) post x ↔
      contract.Meets rules op
        (fun turns result y ↦ match result with
          | .ok value => contract.Meets rules (f value) (fun more ↦ post (turns ++ more)) y
          | .error failure => post turns (.error failure) y) x := by
  refine meets_bind.trans (meets_congr ?_)
  rintro turns (failure | value) y
  · show post (turns ++ []) (.error failure) y ↔ post turns (.error failure) y
    rw [List.append_nil]
  · exact Iff.rfl

/-- An operation that starts with a call: it goes on with what the call answers, or fails with
it. -/
theorem meets_call_bind {call : StoreCall} {f : call.Answer → Operation β}
    {post : Post (Except Failure β)} {x : Shared} :
    contract.Meets rules (Operation.call call >>= f : Operation β) post x ↔
      ∀ y, contract.Relies x y → ∀ chance, rules.Befalls y (.store call) chance →
        let done := y.perform chance (.store call)
        contract.Does y (.store call) done.2 ∧ match done.1 with
          | .ok value =>
            contract.Meets rules (f value)
              (fun turns ↦ post (⟨.store call, .ok value⟩ :: turns)) done.2
          | .error failure => post [⟨.store call, .error failure⟩] (.error failure) done.2 := by
  refine forall₂_congr fun y _ ↦ forall₂_congr fun chance _ ↦ and_congr_right fun _ ↦ ?_
  rcases y.perform chance (.store call) with ⟨failure | value, z⟩ <;> exact Iff.rfl

/-- An operation that starts with reading the clock. -/
theorem meets_clock_bind {f : Instant → Operation β} {post : Post (Except Failure β)} {x : Shared} :
    contract.Meets rules (Operation.clock >>= f : Operation β) post x ↔
      ∀ y, contract.Relies x y → ∀ chance, rules.Befalls y .clock chance →
        contract.Does y .clock y ∧
          contract.Meets rules (f y.now) (fun turns ↦ post (⟨.clock, y.now⟩ :: turns)) y :=
  Iff.rfl

/-- What an operation answers does not matter to the job that it is. -/
theorem meets_job {op : Operation α} {x : Shared}
    (h : contract.Meets rules op (fun _ _ _ ↦ True) x) :
    contract.Meets rules op.job (fun _ _ _ ↦ True) x :=
  meets_bind.2 (h.mono fun _ _ _ _ ↦ trivial)

/-- A later start is as good, where what is relied on leads from one start to the other. -/
theorem Meets.later (htrans : ∀ {x y z}, contract.Relies x y → contract.Relies y z →
    contract.Relies x z) {p : Program α} {post : Post α} {x y : Shared}
    (h : contract.Meets rules p post x) (hxy : contract.Relies x y)
    (hpost : ∀ value, post [] value x → post [] value y) : contract.Meets rules p post y := by
  cases p with
  | done value => exact hpost value h
  | act effect next => exact fun z hyz ↦ h z (htrans hxy hyz)

/-- **From a contract to every course.** The invariant has to outlive what the others do and what
the program does, and to make good what the program relies on. -/
theorem watch_of_meets {Inv : System → Prop} (course : Course rules)
    (hothers : ∀ {s t}, Inv s → rules.Reaches s t → Inv t ∧ contract.Relies s.toShared t.toShared)
    (hown : ∀ {s chance effect}, Inv s →
      contract.Does s.toShared effect (s.toShared.perform chance effect).2 →
      Inv (s.perform chance effect).2)
    {p : Program α} {post : Post α} {s : System} (k : Nat) (hs : Inv s)
    (hp : contract.Meets rules p post s.toShared) :
    post (course.watchFrom k p s).turns (course.watchFrom k p s).value
        (course.watchFrom k p s).system.toShared ∧
      Inv (course.watchFrom k p s).system := by
  -- The others move first, then the program: the invariant survives the one and the other.
  induction p generalizing post s k with
  | done value => exact ⟨hp, hs⟩
  | act effect next ih =>
    obtain ⟨ht, hst⟩ := hothers hs (course.reaches k s)
    obtain ⟨hdoes, hnext⟩ := hp _ hst _ (course.befalls k _ effect)
    exact ih _ (k + 1) (hown ht hdoes) hnext

/-- The contract of a program that relies on nothing and promises nothing. -/
def lax : Contract := ⟨fun _ _ ↦ True, fun _ _ _ ↦ True⟩

/-- **Whatever the others do**, a program reaches a postcondition for which it relies on nothing. -/
theorem watch_lax (course : Course rules) {p : Program α} {post : Post α} {s : System}
    (hp : lax.Meets rules p post s.toShared) :
    post (course.watch p s).turns (course.watch p s).value (course.watch p s).system.toShared :=
  have hothers : ∀ {s t : System}, True → rules.Reaches s t → True ∧ True :=
    fun _ _ ↦ ⟨trivial, trivial⟩
  (watch_of_meets course hothers (fun _ _ ↦ trivial) 0 trivial hp).1

end Contract

/-! ### A program with nobody else around -/

/-- Only time passes between the effects, and nothing is left to the background. -/
def Contract.solitary : Contract where
  Relies x y := ∃ now, x.now ≤ now ∧ y = { x with now }
  Does _ effect _ := effect.tasks = []

/-- Where nothing can be started and nothing is in progress, only time passes. -/
theorem Rules.reaches_alone {befalls : Effect → Chance → Prop} {s t : System}
    (hs : s.jobs = []) (hst : (Rules.alone befalls).Reaches s t) :
    t.jobs = [] ∧ Contract.solitary.Relies s.toShared t.toShared := by
  induction hst with
  | refl => exact ⟨hs, s.now, Int.le_refl _, rfl⟩
  | tail _ hstep ih =>
    obtain ⟨hjobs, now, hnow, heq⟩ := ih
    cases hstep with
    | @tick _ later h =>
      rw [heq] at h ⊢
      exact ⟨hjobs, later, Instant.le_trans hnow h, rfl⟩
    | start h => exact h.elim
    | act h => simp at hjobs
    | leave => simp at hjobs

/-- **A program that is watched alone reaches its postcondition.** -/
theorem Contract.watch_alone {befalls : Effect → Chance → Prop} (course : Course (.alone befalls))
    {α : Type} {p : Program α} {post : Post α} {x : Shared}
    (hp : Contract.solitary.Meets (.alone befalls) p post x) :
    post (course.watch p ⟨x, []⟩).turns (course.watch p ⟨x, []⟩).value
      (course.watch p ⟨x, []⟩).system.toShared := by
  have hown : ∀ {s : System} {chance : Chance} {effect : Effect}, s.jobs = [] →
      effect.tasks = [] → (s.perform chance effect).2.jobs = [] := by
    intro s chance effect hs htasks
    rw [System.perform_of_no_tasks htasks]
    exact hs
  exact (Contract.watch_of_meets course Rules.reaches_alone hown 0 (s := ⟨x, []⟩) rfl hp).1

/-! ### Many programs -/

/-- What all programs of a system promise each other: what always holds, where things may lead, and
what is granted to a task that is submitted. -/
structure Pact where
  Holds : Shared → Prop
  Leads : Shared → Shared → Prop
  Grants : Shared → Task → Prop
  refl : ∀ x, Leads x x
  trans : ∀ {x y z}, Leads x y → Leads y z → Leads x z
  tick : ∀ {x now}, Holds x → x.now ≤ now → Holds { x with now } ∧ Leads x { x with now }

namespace Pact

variable {pact : Pact} {rules : Rules} {α : Type}

/-- The contract of each program under a pact. -/
def contract (pact : Pact) : Contract where
  Relies x y := pact.Holds y ∧ pact.Leads x y
  Does x effect y := pact.Holds y ∧ pact.Leads x y ∧ ∀ task ∈ effect.tasks, pact.Grants x task

/-- An effect that changes nothing and submits nothing does what is promised. -/
theorem does_nothing {x : Shared} {effect : Effect} (hx : pact.Holds x) (h : effect.tasks = []) :
    pact.contract.Does x effect x :=
  ⟨hx, pact.refl x, by simp [h]⟩

/-- The program keeps the pact from `x` on. -/
def Keeps (pact : Pact) (rules : Rules) (p : Program Unit) (x : Shared) : Prop :=
  pact.contract.Meets rules p (fun _ _ _ ↦ True) x

theorem Keeps.later {p : Program Unit} {x y : Shared} (h : pact.Keeps rules p x)
    (hy : pact.Holds y) (hxy : pact.Leads x y) : pact.Keeps rules p y :=
  have htrans : ∀ {x y z}, pact.contract.Relies x y → pact.contract.Relies y z →
      pact.contract.Relies x z := fun hxy hyz ↦ ⟨hyz.1, pact.trans hxy.2 hyz.2⟩
  Contract.Meets.later htrans h ⟨hy, hxy⟩ fun _ h ↦ h

/-- All that may be started keeps the pact, and so do the tasks that are granted. -/
structure Covers (pact : Pact) (rules : Rules) : Prop where
  starts : ∀ {p x}, rules.Starts p → pact.Holds x → pact.Keeps rules p x
  tasks : ∀ {task x}, pact.Grants x task → pact.Holds x → pact.Keeps rules task.program.job x

/-- The pact holds, and all that is in progress keeps it. -/
structure Kept (pact : Pact) (rules : Rules) (s : System) : Prop where
  holds : pact.Holds s.toShared
  jobs : ∀ p ∈ s.jobs, pact.Keeps rules p s.toShared

theorem Kept.perform (hcovers : pact.Covers rules) {s : System} (hs : pact.Kept rules s)
    {chance : Chance} {effect : Effect}
    (hdoes : pact.contract.Does s.toShared effect (s.toShared.perform chance effect).2) :
    pact.Kept rules (s.perform chance effect).2 := by
  obtain ⟨hholds, hleads, htasks⟩ := hdoes
  refine ⟨hholds, fun p hp ↦ ?_⟩
  rcases List.mem_append.1 hp with hp | hp
  · exact (hs.jobs p hp).later hholds hleads
  · split at hp
    · obtain ⟨task, htask, rfl⟩ := List.mem_map.1 hp
      exact (hcovers.tasks (htasks task htask) hs.holds).later hholds hleads
    · simp at hp

omit pact rules in
private theorem mem_of_mem_others {before after : List (Program Unit)} {p q : Program Unit}
    (h : q ∈ before ++ after) : q ∈ before ++ p :: after :=
  ((List.sublist_cons_self p after).append_left before).subset h

/-- **One step keeps the pact.** -/
theorem kept_of_step (hcovers : pact.Covers rules) {s t : System} (hst : rules.Step s t)
    (hs : pact.Kept rules s) : pact.Kept rules t ∧ pact.Leads s.toShared t.toShared := by
  cases hst with
  | tick h =>
    obtain ⟨hholds, hleads⟩ := pact.tick hs.holds h
    exact ⟨⟨hholds, fun p hp ↦ (hs.jobs p hp).later hholds hleads⟩, hleads⟩
  | @start _ p h =>
    refine ⟨⟨hs.holds, fun q hq ↦ ?_⟩, pact.refl _⟩
    rcases List.mem_append.1 hq with hq | hq
    · exact hs.jobs q hq
    · rcases List.mem_singleton.1 hq with rfl
      exact hcovers.starts h hs.holds
  | @act x before after effect next chance h =>
    have hjob : pact.Keeps rules (.act effect next) x := hs.jobs _ (by simp)
    obtain ⟨hdoes, hnext⟩ := hjob x ⟨hs.holds, pact.refl x⟩ chance h
    -- The job leaves the list for its effect, and returns with what is left of it.
    have hothers : pact.Kept rules ⟨x, before ++ after⟩ :=
      ⟨hs.holds, fun p hp ↦ hs.jobs p (mem_of_mem_others hp)⟩
    have hkept := hothers.perform hcovers hdoes
    refine ⟨⟨hkept.holds, fun p hp ↦ ?_⟩, hdoes.2.1⟩
    rcases List.mem_append.1 hp with hp | hp
    · exact hkept.jobs p hp
    · rcases List.mem_singleton.1 hp with rfl
      exact hnext
  | @leave x before after p =>
    exact ⟨⟨hs.holds, fun q hq ↦ hs.jobs q (mem_of_mem_others hq)⟩, pact.refl _⟩

/-- **A whole run keeps the pact.** -/
theorem kept_of_reaches (hcovers : pact.Covers rules) {s t : System} (hst : rules.Reaches s t)
    (hs : pact.Kept rules s) : pact.Kept rules t ∧ pact.Leads s.toShared t.toShared := by
  induction hst with
  | refl => exact ⟨hs, pact.refl _⟩
  | tail _ hstep ih =>
    obtain ⟨hkept, hleads⟩ := kept_of_step hcovers hstep ih.1
    exact ⟨hkept, pact.trans ih.2 hleads⟩

/-- **A watched program that keeps the pact reaches its postcondition**, whatever the others do. -/
theorem watch_of_keeps (hcovers : pact.Covers rules) (course : Course rules) {p : Program α}
    {post : Post α} {s : System} (hs : pact.Kept rules s)
    (hp : pact.contract.Meets rules p post s.toShared) :
    post (course.watch p s).turns (course.watch p s).value
      (course.watch p s).system.toShared ∧ pact.Kept rules (course.watch p s).system := by
  refine Contract.watch_of_meets course (fun ht htu ↦ ?_) (fun ht hdoes ↦ ht.perform hcovers hdoes)
    0 hs hp
  obtain ⟨hu, hleads⟩ := kept_of_reaches hcovers htu ht
  exact ⟨hu, hu.holds, hleads⟩

end Pact

/-! ### Programs by the kind of their effects -/

/-- All effects that the program can have, whatever answers it gets, are of a kind. -/
def Program.Only {α : Type} (kind : Effect → Prop) : Program α → Prop
  | .done _ => True
  | .act effect next => kind effect ∧ ∀ answer, Only kind (next answer)

namespace Program.Only

variable {kind : Effect → Prop} {α β : Type}

theorem bind {p : Program α} {f : α → Program β} (hp : p.Only kind)
    (hf : ∀ value, (f value).Only kind) : (p.bind f).Only kind := by
  induction p with
  | done value => exact hf value
  | act effect next ih => exact ⟨hp.1, fun answer ↦ ih answer (hp.2 answer)⟩

theorem except_bind {ε : Type} {op : ExceptT ε Program α} {f : α → ExceptT ε Program β}
    (hop : Program.Only kind op.run) (hf : ∀ value, Program.Only kind (f value).run) :
    Program.Only kind (op >>= f).run := by
  refine bind hop ?_
  rintro (refusal | value)
  · trivial
  · exact hf value

/-- What cannot fail, as a step that could. -/
theorem lift {ε : Type} (effect : Effect) (h : kind effect) :
    Program.Only kind (ExceptT.lift (Program.perform effect) : ExceptT ε Program _).run :=
  ⟨h, fun _ ↦ trivial⟩

theorem call {c : StoreCall} (h : kind (.store c)) : Program.Only kind (Operation.call c) :=
  ⟨h, fun _ ↦ trivial⟩

theorem job {op : Operation α} (h : Program.Only kind op) : op.job.Only kind :=
  bind h fun _ ↦ trivial

end Program.Only

/-- A program keeps a pact if all its effects are of a kind that does. -/
theorem Pact.keeps_of_only {pact : Pact} {rules : Rules} {kind : Effect → Prop}
    (hdoes : ∀ {x effect chance}, kind effect → pact.Holds x → rules.Befalls x effect chance →
      pact.contract.Does x effect (x.perform chance effect).2)
    {p : Program Unit} (hp : p.Only kind) (x : Shared) : pact.Keeps rules p x := by
  unfold Keeps
  induction p generalizing x with
  | done value => trivial
  | act effect next ih =>
    exact fun y ⟨hy, _⟩ chance hchance ↦ ⟨hdoes hp.1 hy hchance, ih _ (hp.2 _) _⟩

end Licensing
