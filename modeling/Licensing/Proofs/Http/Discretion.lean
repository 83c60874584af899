import Licensing.Proofs.Http.Faults
import Licensing.Proofs.Http.Traffic
import Licensing.Proofs.System.Detaching

/-!
# The machinery does not show

What goes wrong behind the service is for the log. Two runs of the same traffic in which the same
calls fail, with other failures of the machinery, give the same responses
(`Traffic.answers_eq_of_sameOutside`): the strands are even the same, since after a fault all that
is left of a strand is its response. And what becomes of the tasks of a request does not show in its
response (`Strand.Detached`), since nothing that a task writes is read by the request once the task
has been handed over.

The main result is `Service.hides_machinery`. Its three parts rest on two properties of a request as
a program, each settled by cases on the routes:

* after a fault it does no more than to count and to log, and the response is known from the path
  (`Service.once_serve`): this gives what a request is answered upon a fault, and that runs with
  other faults give the same responses, by an induction on the script;
* it does not look back at what its tasks are about (`detaches_serve`): this gives that the tasks
  may fare as they like, by an induction on the script as well.

Failures of the machinery are of three kinds (`Failure.OfMachinery`). All other failures are answers
of the stores, and these do show.
-/

namespace Licensing

open Program (Only Once Concludes Follows)

variable {α β : Type}

/-! ### Settling and following -/

namespace Program

variable {kind : Effect → Prop} {good : α → Prop} {trigger : Turn → Prop}

theorem Once.settle {p : Program α} (h : p.Once trigger kind good) :
    p.settle.2.Once trigger kind good := by
  induction p with
  | done value => trivial
  | act effect next ih =>
    cases effect with
    | submit | count | log => exact ih () (h ()).1
    | store | clock | freshId | drawKey => exact h

/-- What concludes by nothing but counting and logging has ended when it has settled. -/
theorem Concludes.settle_eq {p : Program α} (h : p.Concludes Effect.Quiet good) :
    ∃ value, good value ∧ p.settle = ([], .done value) := by
  induction p with
  | done value => exact ⟨value, h, rfl⟩
  | act effect next ih =>
    cases effect with
    | count | log => exact ih () (h.2 ())
    | store | clock | freshId | drawKey | submit => exact h.1.elim

theorem Concludes.of_follows {p q : Program α} {turns : List Turn} {value : α}
    (h : p.Concludes kind good) (hp : p.Follows turns q) (hq : q = .done value) : good value := by
  induction hp with
  | refl p =>
    subst hq
    exact h
  | step _ ih => exact ih (h.2 _) hq

/-- **Where a turn of the sort was had, the end is good.** -/
theorem Once.of_follows {p q : Program α} {turns : List Turn} {value : α}
    (h : p.Once trigger kind good) (hp : p.Follows turns q) (hq : q = .done value) {turn : Turn}
    (hmem : turn ∈ turns) (hturn : trigger turn) : good value := by
  induction hp with
  | refl p => cases hmem
  | step hrest ih =>
    rcases List.mem_cons.1 hmem with rfl | hmem
    · exact ((h _).2 hturn).of_follows hrest hq
    · exact ih (h _).1 hq hmem

end Program

/-! ### Other faults -/

/-- From outside, the failures look the same: they are, or both are of the machinery. -/
def Failure.SameOutside (a b : Failure) : Prop :=
  a = b ∨ a.OfMachinery ∧ b.OfMachinery

/-- Chance decides the same, except that a call that fails for the machinery may fail for something
else of the machinery. -/
structure Chance.SameOutside (a b : Chance) : Prop where
  failure : Option.Rel Failure.SameOutside a.failure b.failure
  id : a.id = b.id
  random : a.random = b.random
  room : a.room = b.room

/-- Either all is the same, or both fail for the machinery. -/
theorem Chance.SameOutside.cases {a b : Chance} (h : a.SameOutside b) :
    a = b ∨ ∃ failure failure', a.failure = some failure ∧ failure.OfMachinery ∧
      b.failure = some failure' ∧ failure'.OfMachinery := by
  obtain ⟨hfailure, hid, hrandom, hroom⟩ := h
  rcases a with ⟨failure, _, _, _⟩
  rcases b with ⟨failure', _, _, _⟩
  cases hid
  cases hrandom
  cases hroom
  simp only at hfailure
  cases hfailure with
  | none => exact .inl rfl
  | some hsame =>
    rcases hsame with rfl | ⟨ha, hb⟩
    · exact .inl rfl
    · exact .inr ⟨_, _, rfl, ha, rfl, hb⟩

namespace Shared

variable {x : Shared} {chance chance' : Chance}

/-- An effect goes on alike, unless it is a call and meets another failure of the machinery. -/
theorem perform_of_sameOutside (h : chance.SameOutside chance') (effect : Effect) :
    x.perform chance effect = x.perform chance' effect ∨
      ∃ call failure failure', effect = .store call ∧
        chance.failure = some failure ∧ failure.OfMachinery ∧
        chance'.failure = some failure' ∧ failure'.OfMachinery := by
  rcases h.cases with rfl | ⟨failure, failure', hfailures⟩
  · exact .inl rfl
  · cases effect with
    | store call => exact .inr ⟨call, failure, failure', rfl, hfailures⟩
    | freshId => exact .inl (congrArg (·, x) h.id)
    | drawKey format => exact .inl (by simp only [perform, h.random])
    | clock | submit | count | log => exact .inl rfl

theorem worked_eq_of_sameOutside (h : chance.SameOutside chance') (task : Task) :
    x.worked chance task = x.worked chance' task := by
  rcases h.cases with rfl | ⟨failure, failure', hfailure, -, hfailure', -⟩
  · rfl
  · rw [worked_of_failure hfailure, worked_of_failure hfailure']

end Shared

namespace Strand

variable {x : Shared} {chance chance' : Chance}

/-- The strand has one value to end with upon a fault. -/
def Guarded (strand : Strand α) : Prop :=
  ∃ value?, strand.rest.Once Turn.Faults Effect.Quiet fun value ↦ value? = some value

/-- **A guarded strand goes on alike**, whichever failure of the machinery it meets. -/
theorem Guarded.proceed {strand : Strand α} (h : strand.Guarded)
    (hchance : chance.SameOutside chance') :
    strand.proceed x chance = strand.proceed x chance' ∧ (strand.proceed x chance).1.Guarded := by
  obtain ⟨value?, hrest⟩ := h
  rcases strand with ⟨value | ⟨effect, next⟩, tasks⟩
  · exact ⟨rfl, value?, hrest⟩
  · refine ⟨?_, value?, (hrest _).1.settle⟩
    rcases x.perform_of_sameOutside hchance effect with
      heq | ⟨call, failure, failure', rfl, hfailure, hinfra, hfailure', hinfra'⟩
    · simp only [Strand.proceed, heq, hchance.room]
    · -- After either failure there is nothing left but the one value.
      obtain ⟨value, hvalue, hsettle⟩ := ((hrest (.error failure)).2 hinfra).settle_eq
      obtain ⟨value', hvalue', hsettle'⟩ := ((hrest (.error failure')).2 hinfra').settle_eq
      cases hvalue.symm.trans hvalue'
      simp only [Strand.proceed, Shared.perform_store_of_failure hfailure,
        Shared.perform_store_of_failure hfailure', hsettle, hsettle', ite_self]

end Strand

namespace Http

/-- Of each move chance decides the same, but for which failure of the machinery a call meets. -/
inductive Move.SameOutside : Move → Move → Prop
  | wait (now : Instant) : SameOutside (.wait now) (.wait now)
  | ask (request : Request) : SameOutside (.ask request) (.ask request)
  | proceed (strand : Nat) {chance chance' : Chance} (h : chance.SameOutside chance') :
      SameOutside (.proceed strand chance) (.proceed strand chance')
  | work (strand : Nat) (task : String) {chance chance' : Chance}
      (h : chance.SameOutside chance') :
      SameOutside (.work strand task chance) (.work strand task chance')

namespace Traffic

variable {service : Service} {t u : Traffic}

/-- The traffic is the same, and guarded against faults. -/
abbrev Guarded (t u : Traffic) : Prop :=
  t.Akin (· = ·) (fun a b ↦ a = b ∧ a.Guarded) u

theorem guarded_step {move move' : Move} (h : t.Guarded u) (hmoves : move.SameOutside move') :
    (t.step service move).Guarded (u.step service move') := by
  have hshared := h.shared
  cases hmoves with
  | wait now => exact ⟨by simp only [step, hshared], h.strands⟩
  | ask request =>
    exact h.ask ⟨rfl, request.unavailable?, (Service.once_serve service request).settle⟩
  | proceed k hchance =>
    refine h.turn k ?_
    rintro strand _ ⟨rfl, hguarded⟩
    obtain ⟨heq, hnext⟩ := hguarded.proceed hchance
    rw [← hshared, heq] at *
    exact ⟨⟨rfl, hnext⟩, rfl⟩
  | work k name hchance =>
    refine h.turn k ?_
    rintro strand _ ⟨rfl, hguarded⟩
    rw [← hshared]
    unfold Strand.work
    split
    · exact ⟨⟨rfl, hguarded⟩, Shared.worked_eq_of_sameOutside hchance _⟩
    · exact ⟨⟨rfl, hguarded⟩, rfl⟩

/-- **Other faults, the same responses.** -/
theorem answers_eq_of_sameOutside {script script' : List Move} (x : Shared)
    (h : List.Forall₂ Move.SameOutside script script') :
    service.answers script x = service.answers script' x := by
  have hstart : Guarded ⟨x, []⟩ ⟨x, []⟩ := ⟨rfl, .nil⟩
  refine (rel_after guarded_step h hstart).answers_eq ?_
  rintro strand _ ⟨rfl, -⟩
  rfl

end Traffic

end Http

/-! ### Tasks -/

theorem License.detaches_validate (request : ValidationRequest) :
    (License.validate request).run.Detaches := by
  rw [validate_eq]
  rintro (failure | found)
  · exact ⟨List.forall_mem_nil _, trivial⟩
  · refine ⟨List.forall_mem_nil _, fun now ↦ ⟨List.forall_mem_nil _, ?_⟩⟩
    show Program.Detaches (judge found request now)
    unfold judge
    cases followUp? found request now with
    | none => exact fun _ ↦ ⟨List.forall_mem_nil _, trivial⟩
    | some task =>
      refine fun _ ↦ ⟨List.forall_mem_singleton.2 ⟨trivial, fun _ ↦ trivial⟩, ?_⟩
      exact fun _ ↦ ⟨List.forall_mem_nil _, trivial⟩

/-- A validation does not ask for keys. -/
theorem License.avoids_validate (request : ValidationRequest) :
    (License.validate request).run.Only (Effect.Avoids false) := by
  rw [validate_eq]
  refine ⟨nofun, ?_⟩
  rintro (failure | found)
  · trivial
  · refine ⟨trivial, fun now ↦ ?_⟩
    show Only (Effect.Avoids false) (judge found request now)
    unfold judge
    cases followUp? found request now with
    | none => exact ⟨trivial, fun _ ↦ trivial⟩
    | some task => exact ⟨trivial, fun _ ↦ ⟨trivial, fun _ ↦ trivial⟩⟩

/-- A check hands over the note that a key was used, and that is the end of it. -/
theorem ApiKey.detaches_check (format : CredentialFormat) (presented : Option String) :
    (check format presented).Detaches ∧
      (check format presented).Only fun effect ↦
        ∀ task ∈ effect.tasks, task.onLicenses = false := by
  rcases check_cases format presented with ⟨cause, heq⟩ | ⟨credential, heq⟩
  · rw [heq]
    exact ⟨trivial, trivial⟩
  · have hjudge : ∀ answer, (judge credential answer).Detaches ∧
        (judge credential answer).Only fun effect ↦
          ∀ task ∈ effect.tasks, task.onLicenses = false := by
      intro answer
      rcases judge_cases credential answer with ⟨_, -, hend⟩ | ⟨_, -, hend⟩ | ⟨key, -, hend⟩
      · rw [hend]
        exact ⟨trivial, trivial⟩
      · rw [hend]
        exact ⟨trivial, trivial⟩
      · rw [hend]
        exact ⟨fun _ ↦ ⟨fun _ _ ↦ trivial, trivial⟩,
          List.forall_mem_singleton.2 rfl, fun _ ↦ trivial⟩
    rw [heq]
    exact ⟨fun answer ↦ ⟨List.forall_mem_nil _, (hjudge answer).1⟩,
      List.forall_mem_nil _, fun answer ↦ (hjudge answer).2⟩

namespace Http

variable {service : Service} {request : Request}

open Handler (local_form)

namespace Handler

theorem detaches_perform {op : Operation α} (h : op.run.Detaches) : (perform op).run.Detaches := by
  rw [run_perform]
  exact h.bind_local local_ofOutcome

/-- Knowing the agent, who is not asked for a second time. -/
theorem detaches_agent (service : Service) (request : Request) :
    (agent service request).run.Detaches ∧
      (agent service request).run.Only fun effect ↦
        ∀ task ∈ effect.tasks, task.onLicenses = false := by
  have hadmitted : ∀ presented, (admitted service presented).Detaches ∧
      (admitted service presented).Only fun effect ↦
        ∀ task ∈ effect.tasks, task.onLicenses = false := by
    intro presented
    obtain ⟨hdetaches, htasks⟩ := ApiKey.detaches_check service.format presented
    have hcount : ∀ result : AuthResult, Only Effect.Local
        (Program.act (.count (.authentications result.outcome) 1) fun _ ↦ .done result) :=
      fun _ ↦ ⟨trivial, fun _ ↦ trivial⟩
    refine ⟨(hdetaches.bind_local hcount).bind_local local_ofResult, (htasks.bind ?_).bind ?_⟩
    · exact fun result ↦ ⟨List.forall_mem_nil _, fun _ ↦ trivial⟩
    · refine fun result ↦ (local_ofResult result).mono fun effect hlocal task hmem ↦ ?_
      rw [hlocal.calm.tasks_eq] at hmem
      cases hmem
  rw [agent_eq]
  split
  · exact hadmitted none
  · split
    · exact hadmitted _
    · exact ⟨trivial, trivial⟩

end Handler

/-- **Answering an agent** looks at no key after the use of one has been noted, and at no license
after one is to be expired or enriched. -/
theorem Endpoint.detaches_validate (service : Service) (request : Request) :
    (validate service request).run.Detaches := by
  obtain ⟨hagent, htasks⟩ := Handler.detaches_agent service request
  unfold validate
  rw [Handler.run_bind]
  have hform := local_form request .validate
  refine hagent.bind (htasks.mono fun effect htask task hmem ↦ ?_) ?_
  · rw [htask task hmem]
    rintro (refusal | holder)
    · trivial
    · refine Only.except_bind (hform.mono fun _ hlocal ↦ hlocal.avoids _) fun question ↦ ?_
      refine Only.except_bind ?_ fun _ ↦ trivial
      exact Handler.only_perform (fun _ hlocal ↦ hlocal.avoids _) (License.avoids_validate question)
  · rintro (refusal | holder)
    · trivial
    · show Program.Detaches (Handler.form request .validate >>= _ : Handler Response).run
      rw [Handler.run_bind]
      refine Only.detaches_bind (hform.mono fun _ hlocal ↦ hlocal.calm.tasks_eq) ?_
      rintro (refusal | question)
      · trivial
      · refine (Handler.detaches_perform (License.detaches_validate question)).bind_local ?_
        rintro (refusal | verdict) <;> trivial

namespace Service

/-- **A request does not look back** at the stores that its tasks are about. -/
theorem detaches_serve (service : Service) (request : Request) :
    (service.serve request).Detaches := by
  have hrespond : (respond service request).Detaches := by
    rcases respond_cases service request with
      ⟨response, heq⟩ | ⟨route, handler, -, hendpoint, heq⟩
    · rw [heq]
      trivial
    · rw [heq]
      refine Program.Detaches.bind_local ?_ fun _ ↦ trivial
      by_cases hroute : route = .validation
      · subst hroute
        generalize request.answeredAs = method at hendpoint
        cases method <;> cases hendpoint
        exact Endpoint.detaches_validate service request
      · exact (Route.atomic_endpoint hroute hendpoint).only_tasks.detaches
  rcases hunobserved : service.unobserved? request with - | response
  · rw [serve_eq hunobserved]
    refine Only.detaches_bind (local_requestId.mono fun _ hlocal ↦ hlocal.calm.tasks_eq)
      fun id _ ↦ ⟨List.forall_mem_nil _, ?_⟩
    exact hrespond.bind_local fun _ ↦ (local_countAll _).bind fun _ ↦ trivial
  · unfold serve
    rw [hunobserved]
    trivial

end Service

/-- The moves are the same, but for what befalls tasks, and nobody asks anything. -/
inductive Move.SameButTasks : Move → Move → Prop
  | wait (now : Instant) : SameButTasks (.wait now) (.wait now)
  | proceed (strand : Nat) (chance : Chance) :
      SameButTasks (.proceed strand chance) (.proceed strand chance)
  | work (strand : Nat) (task : String) (chance chance' : Chance) :
      SameButTasks (.work strand task chance) (.work strand task chance')

namespace Traffic

variable {t u : Traffic}

/-- There is a single strand, it is the same, and so is all that it still looks at. -/
def Detached (t u : Traffic) : Prop :=
  ∃ strand, t.strands = [strand] ∧ u.strands = [strand] ∧
    Strand.Detached t.toShared u.toShared strand

theorem Detached.turn {strand : Strand Response} (ht : t.strands = [strand])
    (hu : u.strands = [strand]) (h : Strand.Detached t.toShared u.toShared strand) (k : Nat)
    {f g : Strand Response → Strand Response × Shared}
    (hturn : (f strand).1 = (g strand).1 ∧
      Strand.Detached (f strand).2 (g strand).2 (f strand).1) :
    (t.turn k f).Detached (u.turn k g) := by
  unfold Traffic.turn
  rw [ht, hu]
  cases k with
  | zero =>
    refine ⟨(f strand).1, rfl, ?_, hturn.2⟩
    rw [hturn.1]
    rfl
  | succ k => exact ⟨strand, ht, hu, h⟩

theorem detached_step {move move' : Move} (h : t.Detached u) (hmoves : move.SameButTasks move') :
    (t.step service move).Detached (u.step service move') := by
  obtain ⟨strand, ht, hu, hstrand⟩ := h
  cases hmoves with
  | wait now => exact ⟨strand, ht, hu, { hstrand with now := rfl }⟩
  | proceed k chance => exact .turn ht hu hstrand k (hstrand.proceed chance)
  | work k name chance chance' => exact .turn ht hu hstrand k (hstrand.work name chance chance')

/-- **What becomes of the tasks of a request** does not show in its response. -/
theorem answers_eq_of_sameButTasks (request : Request) {moves moves' : List Move} (x : Shared)
    (h : List.Forall₂ Move.SameButTasks moves moves') :
    service.answers (.ask request :: moves) x = service.answers (.ask request :: moves') x := by
  have hstart : Detached (step service ⟨x, []⟩ (.ask request))
      (step service ⟨x, []⟩ (.ask request)) :=
    ⟨_, rfl, rfl, Strand.detached_ofProgram (service.detaches_serve request) x⟩
  obtain ⟨strand, ht, hu, -⟩ := rel_after detached_step h hstart
  show List.map _ (Traffic.strands _) = List.map _ (Traffic.strands _)
  exact congrArg _ (ht.trans hu.symm)

end Traffic

namespace Service

/-- **What goes wrong behind the service does not show.** For any request to any route and any state
of the stores, however requests and tasks interleave:

* runs that differ in nothing but in which failure of the machinery the same calls meet, be it of
  storage, internal or of configuration and whatever its words, give the same responses;
* a request of which a call failed for the machinery is answered by the one response for that: 503
  with the one message of the check by the check of readiness, 500 with the one message of an
  internal error by everything else;
* the response to a request is the same whatever goes wrong with the tasks that it leaves behind. -/
theorem hides_machinery (service : Service) (x : Shared) :
    (∀ script script', List.Forall₂ Move.SameOutside script script' →
      service.answers script x = service.answers script' x) ∧
    (∀ request turns response, (service.serve request).Follows turns (.done response) →
      (∃ turn ∈ turns, turn.Faults) → request.unavailable? = some response) ∧
    ∀ request moves moves', List.Forall₂ Move.SameButTasks moves moves' →
      service.answers (.ask request :: moves) x = service.answers (.ask request :: moves') x := by
  refine ⟨fun script script' ↦ Traffic.answers_eq_of_sameOutside x, ?_,
    fun request moves moves' ↦ Traffic.answers_eq_of_sameButTasks request x⟩
  rintro request turns response hfollows ⟨turn, hmem, hfault⟩
  exact (once_serve service request).of_follows hfollows rfl hmem hfault

/-- Somebody asks whether the service is ready. -/
def probing : Request := { method := .get, path := "/ready" }

/-- The request is given its identifier, and the store cannot be asked. -/
def probingFails (failure : Failure) : List Move :=
  [.ask probing, .proceed 0 {}, .proceed 0 { failure := some failure }]

/-- The key of an agent is looked up, its use is noted, and a license is looked up. -/
def keyedMoves (noted : Chance) : List Move :=
  [.proceed 0 {}, .proceed 0 {}, .work 0 "api_key_last_used" noted, .proceed 0 {}, .proceed 0 {}]

/-- Nobody can tell a full disk from a missing host, nor whether the use of a key was noted. -/
theorem hides_machinery_probing :
    let service : Service := {}
    let keys : ApiKeyStore := .added .empty { (default : ApiKey) with
      hash := hashKey "lm_aaaaaaaa_s", lookup := "aaaaaaaa", isEnabled := true }
    let x : Shared := ⟨⟨.empty, keys⟩, ⟨0⟩⟩
    let diskFull : Failure := ⟨.storage, "disk full"⟩
    let noHost : Failure := ⟨.configuration, "no such host"⟩
    let world : World := { now := ⟨0⟩, outages := [⟨"list", none, none, some diskFull⟩] }
    let agent : Request :=
      { method := .post, path := "/api/v1/licenses/validate"
        headers := [("content-type", "application/json"), ("x-api-key", "lm_aaaaaaaa_s")]
        body := Text.Utf8.encodeString
          "\x7b\"license_key\":\"K\",\"product_name\":\"app\"\x7d" }
    (service.answers (probingFails diskFull) x = [some Route.ready.unavailable] ∧
      service.answers (probingFails diskFull) x = service.answers (probingFails noHost) x) ∧
    probing.unavailable? = some (World.run (service.serve probing) world).1 ∧
    service.answers (.ask agent :: keyedMoves {}) x =
      service.answers (.ask agent :: keyedMoves { failure := some diskFull }) x := by
  intro service keys x diskFull noHost world agent
  have hother : Chance.SameOutside { failure := some diskFull } { failure := some noHost } :=
    ⟨.some (.inr ⟨.inl rfl, .inr (.inr rfl)⟩), rfl, rfl, rfl⟩
  have hsame : Chance.SameOutside {} {} := ⟨.none, rfl, rfl, rfl⟩
  have hscripts : List.Forall₂ Move.SameOutside (probingFails diskFull) (probingFails noHost) :=
    .cons (.ask probing) (.cons (.proceed 0 hsame) (.cons (.proceed 0 hother) .nil))
  have hmoves : List.Forall₂ Move.SameButTasks (keyedMoves {})
      (keyedMoves { failure := some diskFull }) :=
    .cons (.proceed 0 {}) (.cons (.proceed 0 {}) (.cons (.work 0 _ _ _)
      (.cons (.proceed 0 {}) (.cons (.proceed 0 {}) .nil))))
  have hfault : ∃ turn ∈ World.turns (service.serve probing) world, turn.Faults :=
    ⟨_, .tail _ (.tail _ (.head _)), .inl rfl⟩
  exact ⟨⟨rfl, (hides_machinery service x).1 _ _ hscripts⟩,
    (hides_machinery service x).2.1 _ _ _ (World.follows_turns _ world) hfault,
    (hides_machinery service x).2.2 agent _ _ hmoves⟩

end Service

end Http

end Licensing
