import Licensing.Proofs.ApiKey.Lifetime
import Licensing.Proofs.Http.Failing

/-!
# What a fault comes to

A fault is a call that fails for the machinery (`Turn.Faults`): its failure is of one of three kinds
(`Failure.OfMachinery`). No endpoint goes on after one: an operation ends with the failure
(`License.surfaces_amend` and its companions), a handler makes the one response of it that says
nothing (`Handler.hides_perform`), and on the way there is nothing but an entry into the log and a
count. So what a request is answered upon a fault can be said from its path alone
(`Request.unavailable?`), and that is the main result: `Service.once_serve`.

* That a fault is not mistaken for anything else rests on the kinds being disjoint from those that a
  handler or an operation looks for. The one failure that is renamed on the way is that of a license
  that is gone, which is none (`ofLostUpdate_of_ofMachinery`).
* That the response says nothing rests on `Problem.ofFailure_eq_internal`: neither the kind nor the
  words of the failure get into it. Only the check of readiness says more than that, and no more
  than that the store cannot be reached (`Route.unavailable_ready`).
-/

namespace Licensing

open Program (Only Once Concludes Fails)

variable {α β : Type}

/-- The failure is one of the machinery: of storage, internal or of configuration. -/
def Failure.OfMachinery (failure : Failure) : Prop :=
  failure.kind = .storage ∨ failure.kind = .internal ∨ failure.kind = .configuration

theorem Failure.isInfrastructure_iff {failure : Failure} :
    failure.isInfrastructure = true ↔ failure.OfMachinery := by
  obtain ⟨kind, detail⟩ := failure
  cases kind <;> simp [isInfrastructure, FailureKind.isInfrastructure, OfMachinery]

/-- The turn is a call that fails for the machinery. -/
def Turn.Faults : Turn → Prop
  | ⟨.store _, .error failure⟩ => failure.OfMachinery
  | _ => False

/-- The effect counts or logs. -/
def Effect.Quiet : Effect → Prop
  | .count _ _ | .log _ => True
  | _ => False

/-! ### Operations -/

namespace Program

/-- A fault surfaces as the failure of the operation, with nothing done about it. -/
abbrev Surfaces (p : Program (Except Failure α)) : Prop :=
  p.Once Turn.Faults Effect.Quiet (Fails Failure.OfMachinery)

theorem surfaces_call (call : StoreCall) : Surfaces (Operation.call call).run := by
  rintro (failure | value)
  · exact ⟨trivial, id⟩
  · exact ⟨trivial, False.elim⟩

/-- What asks no store has no fault. -/
theorem Only.unfaulted {p : Program α} (h : p.Only Effect.Local) (good : α → Prop) :
    p.Once Turn.Faults Effect.Quiet good :=
  h.once (fun effect _ hlocal ↦ by cases effect <;> first | exact id | cases hlocal) _ _

theorem surfaces_lift (effect : Effect) (h : effect.Local) :
    Surfaces (ExceptT.lift (Program.perform effect) : Operation _).run :=
  (Only.lift effect h).unfaulted _

end Program

open Program (Surfaces surfaces_call surfaces_lift)

namespace License

theorem surfaces_fetch (id : Uuid) : Surfaces (fetch id).run := by
  refine (surfaces_call (.findById id)).except_bind fun found ↦ ?_
  cases found <;> trivial

theorem surfaces_summary : Surfaces summary.run :=
  (surfaces_lift .clock trivial).except_bind fun _ ↦ surfaces_call _

theorem surfaces_issue (request : IssueRequest) : Surfaces (issue request).run := by
  refine (surfaces_lift .clock trivial).except_bind fun now ↦ ?_
  cases request.fault? now with
  | some fault => trivial
  | none =>
    refine (surfaces_lift .freshId trivial).except_bind fun key ↦ ?_
    refine (surfaces_lift .freshId trivial).except_bind fun id ↦ ?_
    exact surfaces_call (.create (request.toLicense now key.toText id))

/-- Only a license that is gone makes a failure be renamed. -/
theorem ofLostUpdate_of_ofMachinery {failure : Failure} (id : Uuid) (h : failure.OfMachinery) :
    failure.ofLostUpdate id = failure := by
  refine if_neg fun hkind ↦ ?_
  rcases h with h | h | h <;> cases h.symm.trans hkind

theorem surfaces_amend (id : Uuid) (amendment : Amendment) :
    Surfaces (amend id amendment).run := by
  refine (surfaces_fetch id).except_bind fun license ↦ ?_
  split
  · trivial
  · split
    · trivial
    · refine Once.bind (surfaces_call (.update (amendment.apply license))) ?_ ?_
      · rintro (failure | value) hfailed
        · show (failure.ofLostUpdate id).OfMachinery
          rwa [ofLostUpdate_of_ofMachinery id hfailed]
        · exact hfailed.elim
      · rintro (failure | value) <;> trivial

theorem surfaces_validate (request : ValidationRequest) : Surfaces (validate request).run := by
  rw [validate_eq]
  rintro (failure | found)
  · exact ⟨trivial, fun hfault ↦ hfault⟩
  · refine ⟨fun now ↦ ⟨?_, False.elim⟩, False.elim⟩
    show Surfaces (judge found request now)
    unfold judge
    cases followUp? found request now with
    | none => exact fun _ ↦ ⟨trivial, False.elim⟩
    | some task => exact fun _ ↦ ⟨fun _ ↦ ⟨trivial, False.elim⟩, False.elim⟩

end License

namespace ApiKey

theorem surfaces_create (format : CredentialFormat) (description : String)
    (productId : Option Uuid) : Surfaces (create format description productId).run := by
  unfold create
  split
  · trivial
  · refine (surfaces_lift (.drawKey format) trivial).except_bind fun generated ↦ ?_
    rcases generated with - | generated
    · trivial
    · refine (surfaces_lift .freshId trivial).except_bind fun id ↦ ?_
      refine (surfaces_lift .clock trivial).except_bind fun now ↦ ?_
      exact (surfaces_call _).except_bind fun _ ↦ trivial

/-- A fault makes an authentication fail, which is not to reject the agent. -/
theorem once_authenticate (format : CredentialFormat) (presented : Option String) :
    (authenticate format presented).Once Turn.Faults Effect.Quiet fun result ↦
      ∃ failure, result = .failed failure ∧ failure.OfMachinery := by
  have hcheck : (check format presented).Once Turn.Faults Effect.Quiet fun result ↦
      ∃ failure, result = .failed failure ∧ failure.OfMachinery := by
    rcases check_cases format presented with ⟨cause, heq⟩ | ⟨credential, heq⟩
    · rw [heq]
      trivial
    · rw [heq]
      intro answer
      rcases judge_cases credential answer with
        ⟨failure, rfl, hjudge⟩ | ⟨found, rfl, hjudge⟩ | ⟨key, rfl, hjudge⟩
      · rw [hjudge]
        exact ⟨trivial, fun hfault ↦ ⟨failure, rfl, hfault⟩⟩
      · rw [hjudge]
        exact ⟨trivial, False.elim⟩
      · rw [hjudge]
        exact ⟨fun _ ↦ ⟨trivial, False.elim⟩, False.elim⟩
  exact hcheck.bind (fun _ hfailed ↦ ⟨trivial, fun _ ↦ hfailed⟩) fun _ _ ↦ ⟨trivial, False.elim⟩

end ApiKey

namespace Http

/-! ### Handlers -/

/-- All that is said of a fault. -/
def Problem.internal : Problem := .of .internalError internalMessage

/-- **Nothing shows of a failure of the machinery**, neither its kind nor its words. -/
theorem Problem.ofFailure_eq_internal {failure : Failure} (h : failure.OfMachinery) :
    ofFailure failure = internal := by
  obtain ⟨kind, detail⟩ := failure
  rcases h with h | h | h <;> cases h <;> rfl

namespace Handler

/-- A fault is answered by the response that says nothing. -/
abbrev Hides (p : Program (Except Response α)) : Prop :=
  p.Once Turn.Faults Effect.Quiet (Fails (· = Problem.internal.response))

theorem concludes_fail {failure : Failure} (h : failure.OfMachinery) :
    Concludes Effect.Quiet (Fails (· = Problem.internal.response))
      (fail failure : Handler α).run := by
  unfold fail
  rw [if_pos (Failure.isInfrastructure_iff.2 h), Problem.ofFailure_eq_internal h]
  exact ⟨trivial, fun _ ↦ rfl⟩

/-- **What surfaces in an operation is hidden by the handler.** -/
theorem hides_perform {op : Operation α} (h : Surfaces op.run) : Hides (perform op).run := by
  rw [run_perform]
  refine Once.bind h ?_ fun result ↦ (local_ofOutcome result).unfaulted _
  rintro (failure | value) hfailed
  · exact concludes_fail hfailed
  · exact hfailed.elim

/-- Knowing the agent. -/
theorem hides_agent (service : Service) (request : Request) :
    Hides (agent service request).run := by
  have hadmitted : ∀ presented, Hides (admitted service presented) := by
    intro presented
    refine Once.bind (ApiKey.once_authenticate service.format presented) ?_
      fun result ↦ (local_ofResult result).unfaulted _
    rintro _ ⟨failure, rfl, hfailed⟩
    exact concludes_fail hfailed
  rw [agent_eq]
  split
  · exact hadmitted none
  · split
    · exact hadmitted _
    · trivial

end Handler

/-! ### Endpoints -/

variable {service : Service} {request : Request} {method : Method} {route : Route}
  {handler : Handler Response}

open Handler (Hides hides_perform hides_agent local_operator local_segment local_form local_spelled)

/-- What a route answers upon a fault, word by word: the check of readiness 503, with one message
about the store, and any other route 500, with a code and one message. -/
def Route.unavailable : Route → Response
  | .ready => ⟨503, .json (.ofPairs [
      ("status", .string "unhealthy"), ("version", .string version),
      ("checks", .array [.ofPairs [
        ("name", .string "license_store"), ("status", .string "unhealthy"),
        ("message", .string "License store unavailable"), ("latency_ms", .int 0)]]),
      ("latency_ms", .int 0)])⟩
  | _ => ⟨500, .json (.ofPairs [("error", .ofPairs [
      ("code", .string "INTERNAL_ERROR"),
      ("message", .string "An internal error occurred")])])⟩

theorem Route.unavailable_ready : ready.unavailable = Endpoint.readiness false := rfl

theorem Route.unavailable_of_ne (h : route ≠ .ready) :
    route.unavailable = Problem.internal.response := by
  cases route <;> first | rfl | exact absurd rfl h

/-- What a request is answered upon a fault, if its path leads anywhere. -/
def Request.unavailable? (request : Request) : Option Response :=
  (Route.ofPath? request.path).map fun route ↦ route.unavailable.to request.method

theorem Endpoint.once_ready :
    ready.Once Turn.Faults Effect.Quiet (· = readiness false) := by
  refine Once.bind (surfaces_call (.list { limit := 1 })) ?_ ?_
  · rintro (failure | page) hfailed
    · exact ⟨trivial, fun _ ↦ rfl⟩
    · exact hfailed.elim
  · rintro (failure | page)
    · exact fun _ ↦ ⟨trivial, False.elim⟩
    · trivial

/-- **Every endpoint hides a fault**, but for the check of readiness, which is there to tell. -/
theorem Route.hides_endpoint (hroute : route ≠ .ready)
    (h : route.endpoint? service request method = some handler) : Hides handler.run := by
  have hoperator := (local_operator service request).unfaulted
    (Fails (· = Problem.internal.response))
  cases route with
  | ready => exact absurd rfl hroute
  | health | live =>
    cases method <;> cases h
    trivial
  | validation =>
    cases method <;> cases h
    refine (hides_agent service request).except_bind fun _ ↦ ?_
    refine ((local_form request .validate).unfaulted _).except_bind fun question ↦ ?_
    exact (hides_perform (License.surfaces_validate question)).except_bind fun _ ↦ trivial
  | licenses =>
    cases method <;> cases h
    · refine hoperator.except_bind fun _ ↦ ?_
      split
      · trivial
      · next query _ =>
        have hlisting : Surfaces (MonadExcept.ofExcept query.listing : Operation _).run := by
          cases query.listing <;> trivial
        refine (hides_perform hlisting).except_bind fun listing ↦ ?_
        exact (hides_perform (surfaces_call _)).except_bind fun _ ↦ trivial
    · refine hoperator.except_bind fun _ ↦ ?_
      refine ((local_form request .issue).unfaulted _).except_bind fun wanted ↦ ?_
      exact (hides_perform (License.surfaces_issue wanted)).except_bind fun _ ↦ trivial
  | license id =>
    cases method <;> cases h
    · refine hoperator.except_bind fun _ ↦ ?_
      refine ((local_segment id).unfaulted _).except_bind fun text ↦ ?_
      refine ((local_spelled _ _ text).unfaulted _).except_bind fun id ↦ ?_
      exact (hides_perform (License.surfaces_fetch id)).except_bind fun _ ↦ trivial
    · refine hoperator.except_bind fun _ ↦ ?_
      refine ((local_segment id).unfaulted _).except_bind fun text ↦ ?_
      refine ((local_form request .amend).unfaulted _).except_bind fun amendment ↦ ?_
      refine ((local_spelled _ _ text).unfaulted _).except_bind fun id ↦ ?_
      exact (hides_perform (License.surfaces_amend id amendment)).except_bind fun _ ↦ trivial
  | licenseStatus id =>
    cases method <;> cases h
    refine hoperator.except_bind fun _ ↦ ?_
    refine ((local_segment id).unfaulted _).except_bind fun text ↦ ?_
    refine ((local_form request .status).unfaulted _).except_bind fun name ↦ ?_
    refine ((local_spelled _ _ text).unfaulted _).except_bind fun id ↦ ?_
    refine ((local_spelled _ _ name).unfaulted _).except_bind fun status ↦ ?_
    exact (hides_perform (surfaces_call _)).except_bind fun _ ↦ trivial
  | dashboard =>
    cases method <;> cases h
    refine hoperator.except_bind fun _ ↦ ?_
    exact (hides_perform License.surfaces_summary).except_bind fun _ ↦ trivial
  | apiKeys =>
    cases method <;> cases h
    · refine hoperator.except_bind fun _ ↦ ?_
      exact (hides_perform (surfaces_call _)).except_bind fun _ ↦ trivial
    · refine hoperator.except_bind fun _ ↦ ?_
      refine ((local_form request .createKey).unfaulted _).except_bind fun wanted ↦ ?_
      exact (hides_perform (ApiKey.surfaces_create _ _ _)).except_bind fun _ ↦ trivial
  | apiKey id =>
    cases method <;> cases h
    refine hoperator.except_bind fun _ ↦ ?_
    refine ((local_segment id).unfaulted _).except_bind fun text ↦ ?_
    refine ((local_spelled _ _ text).unfaulted _).except_bind fun id ↦ ?_
    exact (hides_perform (surfaces_call _)).except_bind fun _ ↦ trivial

/-! ### Serving -/

namespace Service

theorem once_respond : (respond service request).Once Turn.Faults Effect.Quiet fun response ↦
    ∃ route, Route.ofPath? request.path = some route ∧ response = route.unavailable := by
  rcases respond_cases service request with
    ⟨response, heq⟩ | ⟨route, handler, hroute, hendpoint, heq⟩
  · rw [heq]
    trivial
  · rw [heq]
    by_cases hready : route = .ready
    · subst hready
      have hmethod : request.answeredAs = .get ∧ handler = ExceptT.lift Endpoint.ready := by
        generalize request.answeredAs = method at hendpoint
        cases method <;> cases hendpoint
        exact ⟨rfl, rfl⟩
      rw [hmethod.2]
      have hlift : Once Turn.Faults Effect.Quiet (· = .ok (Endpoint.readiness false))
          (ExceptT.lift Endpoint.ready : Handler Response).run := by
        refine Endpoint.once_ready.bind ?_ fun _ ↦ trivial
        rintro _ rfl
        rfl
      refine hlift.bind ?_ fun _ ↦ trivial
      rintro _ rfl
      exact ⟨.ready, hroute, Route.unavailable_ready.symm⟩
    · refine (Route.hides_endpoint hready hendpoint).bind ?_ fun _ ↦ trivial
      rintro (refusal | response) hhidden
      · exact ⟨route, hroute, hhidden.trans (Route.unavailable_of_ne hready).symm⟩
      · exact hhidden.elim

theorem quiet_countAll (counters : List Counter) : Only Effect.Quiet (countAll counters) := by
  induction counters with
  | nil => trivial
  | cons counter rest ih => exact ⟨trivial, fun _ ↦ ih⟩

/-- **What a request is answered upon a fault is known from its path**: nothing of the fault gets
into the response, and after the fault the service does nothing more than to count and to log. -/
theorem once_serve (service : Service) (request : Request) :
    (service.serve request).Once Turn.Faults Effect.Quiet fun response ↦
      request.unavailable? = some response := by
  rcases hunobserved : service.unobserved? request with - | response
  · rw [serve_eq hunobserved]
    refine (local_requestId.unfaulted fun _ ↦ False).bind (fun _ ↦ False.elim) fun id _ ↦
      ⟨?_, False.elim⟩
    refine once_respond.bind ?_ fun response ↦ ?_
    · rintro response ⟨route, hroute, rfl⟩
      refine (quiet_countAll _).concludes.bind fun _ _ ↦ ?_
      show request.unavailable? = some _
      rw [Request.unavailable?, hroute]
      rfl
    · exact ((local_countAll _).unfaulted fun _ ↦ False).bind (fun _ ↦ False.elim) fun _ ↦ trivial
  · unfold serve
    rw [hunobserved]
    trivial

end Service

end Http

end Licensing
