import Licensing.Proofs.Http.Guards
import Licensing.Proofs.System.Atomicity

/-!
# A request that fails changes nothing

Every endpoint but the one for agents is a row of calm steps, one operation, and an answer. Who asks
is settled, what is asked is read and checked, and then the operation does all or nothing: so an
endpoint is atomic (`Route.atomic_endpoint`), and one that is reached by `GET` is calm from its
first step to its last (`Route.only_endpoint_get`). The main result, `Service.changes_nothing`, says
what follows for a request in any world.

It rests on each operation writing last, if it does at all (`License.allOrNothing_amend` and its
companions), and on the stores leaving everything as it was where a call fails
(`World.run_of_atomic`). What a handler adds to an operation asks no store
(`Handler.local_ofOutcome`), so no endpoint has to be looked at for more than the order of its
steps.

The endpoint for agents is left out for a reason: whoever is known by a key has a task handed over
that notes its use, and may be refused afterwards for what stands in the body.
-/

namespace Licensing

open Program (Only Atomic AllOrNothing)

/-! ### Operations -/

namespace License

theorem calm_fetch (id : Uuid) : Only Effect.Calm (fetch id).run := by
  refine Only.except_bind (.call rfl) fun found ↦ ?_
  cases found <;> trivial

theorem calm_browse (query : ListQuery) : Only Effect.Calm (browse query).run := .call rfl

theorem calm_summary : Only Effect.Calm summary.run := ⟨trivial, fun _ ↦ .call rfl⟩

theorem allOrNothing_issue (request : IssueRequest) : AllOrNothing (issue request).run := by
  refine Only.atomic_except_bind (.lift .clock trivial) fun now ↦ ?_
  cases request.fault? now with
  | some fault => exact .done _
  | none =>
    refine Only.atomic_except_bind (.lift .freshId trivial) fun key ↦ ?_
    refine Only.atomic_except_bind (.lift .freshId trivial) fun id ↦ ?_
    exact Program.allOrNothing_call (.create (request.toLicense now key.toText id))

/-- The license is read, which changes nothing, and written back by one call. That its failure is
renamed makes it no success. -/
theorem allOrNothing_amend (id : Uuid) (amendment : Amendment) :
    AllOrNothing (amend id amendment).run := by
  refine Only.atomic_except_bind (calm_fetch id) fun license ↦ ?_
  split
  · exact .done _
  · split
    · exact .done _
    · next hfault =>
      refine Atomic.bind (Program.allOrNothing_call (.update (amendment.apply license))) ?_ ?_
      · rintro _ ⟨value, rfl⟩
        exact ⟨value, rfl⟩
      · rintro (failure | value) <;> exact .done _

end License

theorem ApiKey.calm_browse : Only Effect.Calm browse.run := .call rfl

theorem ApiKey.allOrNothing_create (format : CredentialFormat) (description : String)
    (productId : Option Uuid) : AllOrNothing (create format description productId).run := by
  unfold create
  split
  · exact .done _
  · refine Only.atomic_except_bind (.lift (.drawKey format) trivial) fun generated ↦ ?_
    rcases generated with - | generated
    · exact .done _
    · refine Only.atomic_except_bind (.lift .freshId trivial) fun id ↦ ?_
      refine Only.atomic_except_bind (.lift .clock trivial) fun now ↦ ?_
      refine Atomic.bind (Program.allOrNothing_call _) ?_ ?_
      · rintro _ ⟨apiKey, rfl⟩
        exact ⟨_, rfl⟩
      · rintro (failure | apiKey) <;> exact .done _

namespace Http

/-! ### The steps of a handler -/

/-- The response is one of success. -/
def Response.Succeeds (response : Response) : Prop :=
  200 ≤ response.status ∧ response.status < 300

instance (response : Response) : Decidable response.Succeeds := inferInstanceAs (Decidable (_ ∧ _))

theorem Response.succeeds_json {status : Nat} (value : Json) (h : 200 ≤ status ∧ status < 300) :
    (Response.json status value).Succeeds := h

namespace Handler

variable {α : Type}

theorem local_operator (service : Service) (request : Request) :
    Only Effect.Local (operator service request).run := by
  rw [operator_eq]
  split
  · trivial
  · exact ⟨trivial, fun _ ↦ trivial⟩

theorem local_fail (failure : Failure) : Only Effect.Local (fail failure : Handler α).run := by
  unfold fail
  split
  · exact ⟨trivial, fun _ ↦ trivial⟩
  · trivial

theorem local_segment (encoded : String) : Only Effect.Local (segment encoded).run := by
  unfold segment
  split <;> trivial

theorem local_form (request : Request) (wanted : Form α) :
    Only Effect.Local (form request wanted).run := by
  unfold form
  split
  · trivial
  · split <;> trivial

theorem local_spelled (parse : String → Option α) (failure : String → Failure) (text : String) :
    Only Effect.Local (spelled parse failure text).run := by
  unfold spelled
  split
  · trivial
  · exact local_fail (failure text)

/-- What a handler adds to an operation stays within the program. -/
theorem local_ofOutcome (result : Except Failure α) :
    Only Effect.Local (ofOutcome result).run := by
  rcases result with failure | value
  · exact local_fail failure
  · trivial

/-- What a handler adds to an authentication stays within the program. -/
theorem local_ofResult (result : AuthResult) : Only Effect.Local (ofResult result).run := by
  rcases result with holder | cause | failure
  · trivial
  · trivial
  · exact local_fail failure

theorem only_perform {kind : Effect → Prop} (hkind : ∀ effect, effect.Local → kind effect)
    {op : Operation α} (h : Only kind op.run) : Only kind (perform op).run := by
  rw [run_perform]
  exact Only.bind h fun result ↦ (local_ofOutcome result).mono hkind

theorem calm_perform {op : Operation α} (h : Only Effect.Calm op.run) :
    Only Effect.Calm (perform op).run :=
  only_perform (fun _ ↦ Effect.Local.calm) h

/-- The endpoint ends in a response of success. -/
def Answers (result : Except Response Response) : Prop := (Service.response result).Succeeds

/-- **An operation that does all or nothing, and then an answer**: no other response than that of
success follows a change. -/
theorem atomic_perform_answer {op : Operation α} {answer : α → Response}
    (hop : AllOrNothing op.run) (hanswer : ∀ value, (answer value).Succeeds) :
    Atomic Answers (perform op >>= fun value ↦ return answer value).run := by
  have hperform : AllOrNothing (perform op).run := by
    rw [run_perform]
    refine Atomic.bind hop ?_ fun result ↦ (local_ofOutcome result).calm.atomic
    rintro _ ⟨value, rfl⟩
    exact ⟨value, rfl⟩
  refine Atomic.bind hperform ?_ ?_
  · rintro _ ⟨value, rfl⟩
    exact hanswer value
  · rintro (refusal | value) <;> exact .done _

end Handler

/-! ### Endpoints -/

variable {service : Service} {request : Request} {method : Method} {route : Route}
  {handler : Handler Response}

open Handler (local_operator local_segment local_form local_spelled calm_perform
  atomic_perform_answer Answers)

theorem Endpoint.calm_ready : Only Effect.Calm ready := by
  refine Only.bind (License.calm_browse _) ?_
  rintro (failure | page)
  · exact ⟨trivial, fun _ ↦ trivial⟩
  · trivial

theorem Endpoint.calm_listLicenses : Only Effect.Calm (listLicenses service request).run := by
  refine (local_operator service request).calm.except_bind fun _ ↦ ?_
  split
  · trivial
  · next query _ =>
    have hlisting : Only Effect.Calm (MonadExcept.ofExcept query.listing : Operation _).run := by
      cases query.listing <;> trivial
    refine (calm_perform hlisting).except_bind fun listing ↦ ?_
    exact (calm_perform (License.calm_browse listing)).except_bind fun _ ↦ trivial

theorem Endpoint.calm_showLicense (id : String) :
    Only Effect.Calm (showLicense service request id).run := by
  refine (local_operator service request).calm.except_bind fun _ ↦ ?_
  refine (local_segment id).calm.except_bind fun text ↦ ?_
  refine (local_spelled _ _ text).calm.except_bind fun id ↦ ?_
  exact (calm_perform (License.calm_fetch id)).except_bind fun _ ↦ trivial

/-- **What is reached by `GET` is calm** from its first step to its last. -/
theorem Route.only_endpoint_get (h : route.endpoint? service request .get = some handler) :
    Only Effect.Calm handler.run := by
  cases route with
  | health | live =>
    cases h
    trivial
  | ready =>
    cases h
    exact Only.bind Endpoint.calm_ready fun _ ↦ trivial
  | validation | licenseStatus | apiKey => cases h
  | licenses =>
    cases h
    exact Endpoint.calm_listLicenses
  | license id =>
    cases h
    exact Endpoint.calm_showLicense id
  | dashboard =>
    cases h
    refine (local_operator service request).calm.except_bind fun _ ↦ ?_
    exact (calm_perform License.calm_summary).except_bind fun _ ↦ trivial
  | apiKeys =>
    cases h
    refine (local_operator service request).calm.except_bind fun _ ↦ ?_
    exact (calm_perform ApiKey.calm_browse).except_bind fun _ ↦ trivial

/-- **Every endpoint for operators is atomic**: its one operation comes last. -/
theorem Route.atomic_endpoint (hroute : route ≠ .validation)
    (h : route.endpoint? service request method = some handler) : Atomic Answers handler.run := by
  cases method with
  | get => exact (only_endpoint_get h).atomic
  | head | put | other => cases route <;> cases h
  | post =>
    cases route with
    | validation => exact absurd rfl hroute
    | licenses =>
      cases h
      refine (local_operator service request).calm.atomic_except_bind fun _ ↦ ?_
      refine (local_form request .issue).calm.atomic_except_bind fun wanted ↦ ?_
      exact atomic_perform_answer (License.allOrNothing_issue wanted) fun _ ↦
        Response.succeeds_json _ (by decide)
    | apiKeys =>
      cases h
      refine (local_operator service request).calm.atomic_except_bind fun _ ↦ ?_
      refine (local_form request .createKey).calm.atomic_except_bind fun wanted ↦ ?_
      exact atomic_perform_answer (ApiKey.allOrNothing_create _ _ _) fun _ ↦
        Response.succeeds_json _ (by decide)
    | _ => cases h
  | patch =>
    cases route with
    | license id =>
      cases h
      refine (local_operator service request).calm.atomic_except_bind fun _ ↦ ?_
      refine (local_segment id).calm.atomic_except_bind fun text ↦ ?_
      refine (local_form request .amend).calm.atomic_except_bind fun amendment ↦ ?_
      refine (local_spelled _ _ text).calm.atomic_except_bind fun id ↦ ?_
      exact atomic_perform_answer (License.allOrNothing_amend id amendment) fun _ ↦
        Response.succeeds_json _ (by decide)
    | licenseStatus id =>
      cases h
      refine (local_operator service request).calm.atomic_except_bind fun _ ↦ ?_
      refine (local_segment id).calm.atomic_except_bind fun text ↦ ?_
      refine (local_form request .status).calm.atomic_except_bind fun name ↦ ?_
      refine (local_spelled _ _ text).calm.atomic_except_bind fun id ↦ ?_
      refine (local_spelled _ _ name).calm.atomic_except_bind fun status ↦ ?_
      exact atomic_perform_answer (Program.allOrNothing_call _) fun _ ↦ by decide
    | _ => cases h
  | delete =>
    cases route with
    | apiKey id =>
      cases h
      refine (local_operator service request).calm.atomic_except_bind fun _ ↦ ?_
      refine (local_segment id).calm.atomic_except_bind fun text ↦ ?_
      refine (local_spelled _ _ text).calm.atomic_except_bind fun id ↦ ?_
      exact atomic_perform_answer (Program.allOrNothing_call _) fun _ ↦ by decide
    | _ => cases h

/-! ### Serving -/

namespace Service

theorem local_requestId : Only Effect.Local (requestId request) := by
  unfold requestId
  split
  · trivial
  · exact ⟨trivial, fun _ ↦ trivial⟩

theorem local_countAll (counters : List Counter) : Only Effect.Local (countAll counters) := by
  induction counters with
  | nil => trivial
  | cons counter rest ih => exact ⟨trivial, fun _ ↦ ih⟩

/-- What is not observed, or leads nowhere, is answered without any effect; everything else by the
endpoint of its route. -/
theorem respond_cases (service : Service) (request : Request) :
    (∃ response, respond service request = .done response) ∨
      ∃ route handler, Route.ofPath? request.path = some route ∧
        route.endpoint? service request request.answeredAs = some handler ∧
        respond service request = handler.run.bind fun result ↦ .done (response result) := by
  rcases hpath : Route.ofPath? request.path with - | route
  · refine .inl ⟨⟨404, .none⟩, ?_⟩
    simp only [respond, hpath]
    rfl
  · rcases hendpoint : route.endpoint? service request request.answeredAs with - | handler
    · refine .inl ⟨⟨405, .none⟩, ?_⟩
      unfold Request.answeredAs at hendpoint
      simp only [respond, hpath, hendpoint]
      rfl
    · exact .inr ⟨route, handler, rfl, hendpoint, respond_eq hpath hendpoint⟩

theorem calm_respond (hmethod : request.answeredAs = .get) :
    Only Effect.Calm (respond service request) := by
  rcases respond_cases service request with ⟨response, heq⟩ | ⟨route, handler, -, hendpoint, heq⟩
  · rw [heq]
    trivial
  · rw [hmethod] at hendpoint
    rw [heq]
    exact (Route.only_endpoint_get hendpoint).bind fun _ ↦ trivial

theorem atomic_respond (hpath : Route.ofPath? request.path ≠ some .validation) :
    Atomic Response.Succeeds (respond service request) := by
  rcases respond_cases service request with
    ⟨response, heq⟩ | ⟨route, handler, hroute, hendpoint, heq⟩
  · rw [heq]
    exact .done _
  · rw [heq]
    have hother : route ≠ .validation := by
      rintro rfl
      exact hpath hroute
    exact (Route.atomic_endpoint hother hendpoint).bind (fun _ hanswers ↦ hanswers) fun _ ↦ .done _

/-- Around what is responded, everything is calm, and the status stays. -/
theorem calm_serve (hmethod : request.answeredAs = .get) :
    Only Effect.Calm (service.serve request) := by
  rcases hunobserved : service.unobserved? request with - | response
  · rw [serve_eq hunobserved]
    refine local_requestId.calm.bind fun id ↦ ⟨trivial, fun _ ↦ ?_⟩
    exact (calm_respond hmethod).bind fun _ ↦ (local_countAll _).calm.bind fun _ ↦ trivial
  · unfold serve
    rw [hunobserved]
    trivial

theorem atomic_serve (hpath : Route.ofPath? request.path ≠ some .validation) :
    Atomic Response.Succeeds (service.serve request) := by
  rcases hunobserved : service.unobserved? request with - | response
  · rw [serve_eq hunobserved]
    have hlog : ∀ entry, Only Effect.Calm (Program.perform (.log entry)) :=
      fun _ ↦ ⟨trivial, fun _ ↦ trivial⟩
    refine local_requestId.calm.atomic_bind fun id ↦ (hlog _).atomic_bind fun _ ↦ ?_
    refine (atomic_respond hpath).bind (fun response hsucceeds ↦ ?_) fun response ↦ ?_
    · have hstatus : (response.to request.method).Succeeds := by
        unfold Response.Succeeds
        rwa [Response.status_to]
      exact (local_countAll _).calm.concludes.bind fun _ _ ↦ hstatus
    · exact (local_countAll _).calm.atomic_bind fun _ ↦ .done _
  · unfold serve
    rw [hunobserved]
    exact .done _

/-- **A request that fails changes nothing.** Whatever a request holds, as long as it does not ask
for a validation, so by any method to any route for operators: in any world, with any stores, and
whatever goes wrong with any call,

* no task is handed over, and the background is as it was;
* if the response is not one of success, both stores are as they were;
* by `GET`, and by `HEAD`, both stores are as they were whatever the response is. -/
theorem changes_nothing (hpath : Route.ofPath? request.path ≠ some .validation) (world : World) :
    (∀ turn ∈ World.turns (service.serve request) world, ∀ task, turn.1 ≠ .submit task) ∧
    (World.run (service.serve request) world).2.inFlight = world.inFlight ∧
    (¬ (World.run (service.serve request) world).1.Succeeds →
      (World.run (service.serve request) world).2.stores = world.stores) ∧
    (request.method = .get ∨ request.method = .head →
      (World.run (service.serve request) world).2.stores = world.stores) := by
  have hatomic : Atomic Response.Succeeds (service.serve request) := atomic_serve hpath
  obtain ⟨hflight, hstores⟩ := World.run_of_atomic hatomic world
  refine ⟨fun turn hturn task hsubmit ↦ ?_, hflight, hstores, fun hmethod ↦ ?_⟩
  · have htasks := World.forall_turns_of_only hatomic.only_tasks turn hturn
    rw [hsubmit] at htasks
    cases htasks
  · refine World.stores_of_calm (calm_serve ?_) world
    unfold Request.answeredAs
    rcases hmethod with hget | hhead
    · rw [hget]
      rfl
    · rw [hhead]
      rfl

/-- A service whose operators share a secret. -/
def guarded : Service := { policy := ⟨some "secret", none, none⟩ }

/-- An operator who is known asks to revoke a license. -/
def revoking : Request where
  method := .patch
  path := "/api/v1/licenses/00000000-0000-0000-0000-000000000001/status"
  headers := [("content-type", "application/json"), ("authorization",
    "Bearer eyJ0eXAiOiJKV1QiLCJhbGciOiJIUzI1NiJ9." ++
      "eyJzdWIiOiJvcGVyYXRvciIsImV4cCI6NDEwMjQ0NDgwMCwiaWF0IjoxNzE3MjQzMjAwfQ." ++
      "Z7UZ8Z1PdmA452YrhhSa-ok_DXLk9s2oNPKgxhxm-XI")]
  body := Text.Utf8.encodeString "\x7b\"status\":\"revoked\"\x7d"

/-- Noon of 1 June 2024. -/
def noon : Instant := .ofSecond 1717243200 0

/-- The license is there, and no status can be written. -/
def unwritable : World where
  now := noon
  stores := ⟨.single (License.fresh noon ⟨1⟩ "K" "standard" "app" .active), .empty⟩
  outages := [⟨"update_status", none, none, some ⟨.storage, "disk full"⟩⟩]

/-- The request gets as far as the write, and the license stays active. -/
theorem changes_nothing_revoking :
    Route.ofPath? revoking.path ≠ some .validation ∧
    ((World.run (guarded.serve revoking) unwritable).1.status = 500 ∧
      (World.run (guarded.serve revoking) unwritable).2.trace.map StoreCall.name =
        ["update_status"]) ∧
    (World.run (guarded.serve revoking) unwritable).2.stores = unwritable.stores := by
  have hpath : Route.ofPath? revoking.path ≠ some .validation := by decide
  have hrun : (World.run (guarded.serve revoking) unwritable).1.status = 500 ∧
      (World.run (guarded.serve revoking) unwritable).2.trace.map StoreCall.name =
        ["update_status"] := by
    decide +kernel
  refine ⟨hpath, hrun, (changes_nothing hpath unwritable).2.2.1 ?_⟩
  rintro ⟨-, hsuccess⟩
  rw [hrun.1] at hsuccess
  exact absurd hsuccess (by decide)

end Service

end Http

end Licensing
