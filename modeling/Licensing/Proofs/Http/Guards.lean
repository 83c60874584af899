import Licensing.Proofs.Http.Serving
import Licensing.Proofs.Token.Accepted

/-!
# Who asks comes first

Whatever a request holds, an endpoint for operators or agents knows who asks before it looks at
anything else: it begins with a guard (`Leads.exists_operator`, `Leads.exists_agent`), and a guard
that refuses has done nothing but read the clock or look an API key up (`Handler.operator_refuses`,
`Handler.agent_refuses`). So a request without credentials neither does nor learns anything
(`Service.refuses`), on every route, and no matter how malformed it is.

The main result rests on these four and on what serving adds to an endpoint (`serve_of_refused`):
what comes behind a guard is not looked at, so a new field in a body or a new rule for it does not
touch anything here, and a new route only the first two.

A token is checked against the clock, and the check breaks off where the clock has not run for a
minute yet. Then a request is left without any response (`Service.breaksOff_iff`), which at any
later time does not happen (`Service.breaksOff_eq_false`).
-/

namespace Licensing.Http

/-! ### Guarded routes -/

namespace Service

variable {service : Service} {request : Request} {route : Route}

/-- **Every endpoint for operators begins with knowing the operator.** -/
theorem Leads.exists_operator (h : service.Leads request route)
    (hroute : route.forOperators = true) :
    ∃ f : Token.Claims → Handler Response,
      route.endpoint? service request request.answeredAs =
        some (Handler.operator service request >>= f) := by
  have hmethod := h.method
  generalize request.answeredAs = method at hmethod ⊢
  cases route with
  | health | ready | live | validation => cases hroute
  | licenses | license | licenseStatus | dashboard | apiKeys | apiKey =>
    cases method with
    | get | post | patch | delete =>
      -- The route has the method, and its endpoint begins as it should, or it has not.
      first
      | exact ⟨_, rfl⟩
      | cases hmethod
    | head | put | other => cases hmethod

/-- **The endpoint for agents begins with knowing the agent.** -/
theorem Leads.exists_agent (h : service.Leads request .validation) :
    ∃ f : AuthenticatedKey → Handler Response,
      Route.validation.endpoint? service request request.answeredAs =
        some (Handler.agent service request >>= f) := by
  have hmethod := h.method
  generalize request.answeredAs = method at hmethod ⊢
  cases method with
  | post => exact ⟨_, rfl⟩
  | get | head | put | patch | delete | other => cases hmethod

end Service

/-! ### Operators -/

/-- The request bears a token that is accepted at the time. -/
def Service.KnowsOperator (service : Service) (request : Request) (now : Instant) : Prop :=
  ∃ token claims, Handler.bearerToken? request = some token ∧
    Token.verify service.policy now.second token = .ok claims

/-- To know an operator is to read the clock and to verify the token. -/
theorem Handler.operator_eq (service : Service) (request : Request) :
    (operator service request).run =
      match bearerToken? request with
      | none => .done (.error (Problem.of .unauthenticated "Operator token required").response)
      | some token => .act .clock fun now ↦ .done
        (match Token.verify service.policy now.second token with
          | .ok claims => .ok claims
          | .error _ => .error
            (Problem.of .unauthenticated "Invalid or expired operator token").response) := by
  unfold operator
  rcases bearerToken? request with - | token
  · rfl
  · refine congrArg (Program.act .clock) (funext fun now ↦ ?_)
    show (match Token.verify service.policy (Instant.second now) token with
      | .ok claims => (return claims : Handler Token.Claims)
      | .error _ => refuse (.of .unauthenticated "Invalid or expired operator token")).run = _
    rcases Token.verify service.policy (Instant.second now) token with fault | claims <;> rfl

/-- **Nobody passes as an operator without an accepted token.** -/
theorem Handler.operator_refuses {service : Service} {request : Request} (world : World)
    (h : ¬ service.KnowsOperator request world.now) :
    ∃ refusal : Response, refusal.status = 401 ∧
      (World.run (operator service request).run world).1 = .error refusal ∧
      ∀ turn ∈ World.turns (operator service request).run world, turn.1.Harmless := by
  rw [operator_eq]
  rcases hbearer : bearerToken? request with - | token
  · exact ⟨_, rfl, rfl, List.forall_mem_nil _⟩
  · refine ⟨(Problem.of .unauthenticated "Invalid or expired operator token").response, rfl, ?_,
      List.forall_mem_singleton.2 trivial⟩
    show (match Token.verify service.policy world.now.second token with
      | .ok claims => Except.ok claims
      | .error _ => .error _) = _
    rcases hverify : Token.verify service.policy world.now.second token with fault | claims
    · rfl
    · exact absurd ⟨token, claims, hbearer, hverify⟩ h

/-- A request is left without a response if it is one to operators, and the check of its token
breaks off. -/
theorem Service.breaksOff_iff {service : Service} {request : Request} {now : Instant} :
    service.breaksOff request now = true ↔
      (∃ route, service.Leads request route ∧ route.forOperators = true) ∧
        Handler.breaksOff service request now = true := by
  rw [breaksOff, Bool.and_eq_true, and_congr_left_iff]
  intro _
  rw [Bool.and_eq_true, Option.any_eq_true]
  constructor
  · rintro ⟨hobserved, route, hpath, hroute⟩
    obtain ⟨hoperators, hmethod⟩ := Bool.and_eq_true_iff.1 hroute
    refine ⟨route, ⟨fun hpage ↦ ?_, hpath, hmethod⟩, hoperators⟩
    rw [unobserved?, hpage] at hobserved
    simp at hobserved
  · rintro ⟨route, hleads, hoperators⟩
    exact ⟨Option.isNone_iff_eq_none.2 (unobserved?_of_leads hleads), route, hleads.path,
      Bool.and_eq_true_iff.2 ⟨hoperators, hleads.method⟩⟩

/-- **Every request has its response once the clock has run for a minute.** -/
theorem Service.breaksOff_eq_false {now : Instant} (h : Token.leeway ≤ now.second)
    (service : Service) (request : Request) : service.breaksOff request now = false := by
  refine Bool.eq_false_iff.2 fun hbreaks ↦ ?_
  have hcheck := (breaksOff_iff.1 hbreaks).2
  unfold Handler.breaksOff at hcheck
  split at hcheck
  · cases hcheck
  next token _ =>
  split at hcheck
  · next hbroken => exact Token.verify_ne_clockTooEarly h token hbroken
  · cases hcheck

/-! ### Agents -/

namespace Service

/-- The request presents a credential: its key can be read and fits the format. -/
def Presents (service : Service) (request : Request) (credential : Credential) : Prop :=
  ∃ value text, request.header? "x-api-key" = some value ∧ readable? value = some text ∧
    service.format.parse text = .ok credential

/-- The request presents the key of an agent: it is found, enabled, and has the stored hash. -/
def KnowsAgent (service : Service) (request : Request) (world : World) : Prop :=
  ∃ credential key, service.Presents request credential ∧
    world.failure? (.findEnabledKey credential.lookup) = none ∧
    world.stores.keys.findEnabled credential.lookup = some key ∧
    verifyKey credential.raw key.hash = true

/-- The key that the request presents cannot be looked up. -/
def LookupFails (service : Service) (request : Request) (world : World) (failure : Failure) :
    Prop :=
  ∃ credential, service.Presents request credential ∧
    world.failure? (.findEnabledKey credential.lookup) = some failure

end Service

namespace Handler

/-- What becomes of an authentication. -/
def ofResult : AuthResult → Handler AuthenticatedKey
  | .accepted holder => return holder
  | .rejected cause => refuse (.ofAuthFailure cause)
  | .failed failure => fail failure

/-- Authenticates what is presented. -/
def admitted (service : Service) (presented : Option String) :
    Program (Except Response AuthenticatedKey) :=
  (ApiKey.authenticate service.format presented).bind fun result ↦ (ofResult result).run

/-- To know an agent is to authenticate what can be read of what it presents. -/
theorem agent_eq (service : Service) (request : Request) : (agent service request).run =
    match request.header? "x-api-key" with
    | none => admitted service none
    | some value =>
      match readable? value with
      | some text => admitted service (some text)
      | none => .done (.error (Problem.ofAuthFailure .malformed).response) := by
  have hadmitted : ∀ presented, (do
      match ← ExceptT.lift (ApiKey.authenticate service.format presented) with
      | .accepted holder => return holder
      | .rejected cause => refuse (.ofAuthFailure cause)
      | .failed failure => fail failure : Handler AuthenticatedKey).run =
        admitted service presented := by
    intro presented
    refine (Program.bind_assoc _ _ _).trans ?_
    refine congrArg (Program.bind _) (funext ?_)
    rintro (holder | cause | failure) <;> rfl
  unfold agent
  rcases request.header? "x-api-key" with - | value
  · exact hadmitted none
  · simp only
    rcases readable? value with - | text
    · rfl
    · exact hadmitted (some text)

/-- A failure refuses the request; at most it is logged. -/
theorem fail_refuses {α : Type} (failure : Failure) (world : World) :
    (World.run (fail failure : Handler α).run world).1 =
        .error (Problem.ofFailure failure).response ∧
      ∀ turn ∈ World.turns (fail failure : Handler α).run world, turn.1.Harmless := by
  unfold fail
  split
  · exact ⟨rfl, List.forall_mem_singleton.2 trivial⟩
  · exact ⟨rfl, List.forall_mem_nil _⟩

/-- An agent that is turned away is told that it did not say who it is, or that it is not
allowed. -/
theorem status_ofAuthFailure (cause : AuthFailure) :
    (Problem.ofAuthFailure cause).response.status = 401 ∨
      (Problem.ofAuthFailure cause).response.status = 403 := by
  cases cause with
  | missing | malformed => exact .inl rfl
  | notFoundOrDisabled => exact .inr rfl

/-- What a lookup is answered. -/
theorem answer_of_lookup {α : Type} {p : Program α} {world : World} {lookup : String}
    {answer : Except Failure (Option ApiKey)} {rest : List Turn}
    (h : World.turns p world = ⟨.store (.findEnabledKey lookup), answer⟩ :: rest) :
    answer = match world.failure? (.findEnabledKey lookup) with
      | some failure => .error failure
      | none => .ok (world.stores.keys.findEnabled lookup) := by
  rw [World.answer_of_turns_eq h, World.perform_call_of_harmless ⟨rfl, rfl⟩]
  rfl

/-- What is presented admits an agent: it is a key that is found, enabled, and has the stored
hash. -/
def Admits (format : CredentialFormat) (presented : Option String) (world : World) : Prop :=
  ∃ text credential key, presented = some text ∧ format.parse text = .ok credential ∧
    world.failure? (.findEnabledKey credential.lookup) = none ∧
    world.stores.keys.findEnabled credential.lookup = some key ∧
    verifyKey credential.raw key.hash = true

/-- **Whoever presents no accepted key is rejected**, unless the lookup fails. -/
theorem authenticate_rejects {format : CredentialFormat} {presented : Option String}
    {world : World} (h : ¬ Admits format presented world) :
    (∀ turn ∈ World.turns (ApiKey.authenticate format presented) world, turn.1.Harmless) ∧
      ((∃ cause, (World.run (ApiKey.authenticate format presented) world).1 = .rejected cause) ∨
        ∃ text credential failure, presented = some text ∧ format.parse text = .ok credential ∧
          world.failure? (.findEnabledKey credential.lookup) = some failure ∧
          (World.run (ApiKey.authenticate format presented) world).1 = .failed failure) := by
  obtain ⟨checking, hchecked, hturns⟩ :=
    World.post_of_obeys (Origin.obeys_authenticate format presented) world
  rw [List.nil_append] at hturns
  rw [hturns]
  generalize (World.run (ApiKey.authenticate format presented) world).1 = result
    at hchecked hturns ⊢
  have hcounted : ∀ turn ∈ [(⟨.count (.authentications result.outcome) 1, ()⟩ : Turn)],
      turn.1.Harmless := List.forall_mem_singleton.2 trivial
  have hlookup : ∀ {lookup answer}, ∀ turn ∈ [(⟨.store (.findEnabledKey lookup), answer⟩ : Turn)],
      turn.1.Harmless := fun {_ _} ↦ List.forall_mem_singleton.2 ⟨rfl, rfl⟩
  cases hchecked with
  | missing => exact ⟨hcounted, .inl ⟨_, rfl⟩⟩
  | unfit => exact ⟨hcounted, .inl ⟨_, rfl⟩⟩
  | unknown => exact ⟨List.forall_mem_append.2 ⟨hlookup, hcounted⟩, .inl ⟨_, rfl⟩⟩
  | wrong => exact ⟨List.forall_mem_append.2 ⟨hlookup, hcounted⟩, .inl ⟨_, rfl⟩⟩
  | failed hparse =>
    refine ⟨List.forall_mem_append.2 ⟨hlookup, hcounted⟩, .inr ⟨_, _, _, rfl, hparse, ?_, rfl⟩⟩
    have hanswer := answer_of_lookup hturns
    split at hanswer
    · next hfailure =>
      rw [hfailure, Except.error.inj hanswer]
    · cases hanswer
  | accepted hparse hverify =>
    have hanswer := answer_of_lookup hturns
    split at hanswer
    · cases hanswer
    · next hnone =>
      exact absurd ⟨_, _, _, rfl, hparse, hnone, (Except.ok.inj hanswer).symm, hverify⟩ h

/-- **Whoever is not authenticated is refused**, turned away or because the lookup fails. -/
theorem admitted_refuses (service : Service) (presented : Option String) (world : World)
    (h : ¬ Admits service.format presented world) :
    ∃ refusal : Response, (World.run (admitted service presented) world).1 = .error refusal ∧
      (∀ turn ∈ World.turns (admitted service presented) world, turn.1.Harmless) ∧
      (refusal.status = 401 ∨ refusal.status = 403 ∨ ∃ text credential failure,
        presented = some text ∧ service.format.parse text = .ok credential ∧
        world.failure? (.findEnabledKey credential.lookup) = some failure ∧
        refusal = (Problem.ofFailure failure).response) := by
  obtain ⟨hharmless, hresult⟩ := authenticate_rejects h
  set after := (World.run (ApiKey.authenticate service.format presented) world).2
  have hrun := World.run_bind (ApiKey.authenticate service.format presented)
    (fun result ↦ (ofResult result).run) world
  have hturns := World.turns_bind (ApiKey.authenticate service.format presented)
    (fun result ↦ (ofResult result).run) world
  rcases hresult with ⟨cause, hcause⟩ | ⟨text, credential, failure, htext, hparse, hfails, hfailed⟩
  · rw [hcause] at hrun hturns
    refine ⟨(Problem.ofAuthFailure cause).response, congrArg Prod.fst hrun, ?_,
      (status_ofAuthFailure cause).imp_right .inl⟩
    rw [admitted, hturns]
    exact List.forall_mem_append.2 ⟨hharmless, List.forall_mem_nil _⟩
  · rw [hfailed] at hrun hturns
    obtain ⟨hrefusal, hlogged⟩ := fail_refuses (α := AuthenticatedKey) failure after
    refine ⟨(Problem.ofFailure failure).response, (congrArg Prod.fst hrun).trans hrefusal, ?_,
      .inr (.inr ⟨text, credential, failure, htext, hparse, hfails, rfl⟩)⟩
    rw [admitted, hturns]
    exact List.forall_mem_append.2 ⟨hharmless, hlogged⟩

/-- **Nobody passes as an agent without an accepted key.** -/
theorem agent_refuses {service : Service} {request : Request} (world : World)
    (h : ¬ service.KnowsAgent request world) :
    ∃ refusal : Response, (World.run (agent service request).run world).1 = .error refusal ∧
      (∀ turn ∈ World.turns (agent service request).run world, turn.1.Harmless) ∧
      (refusal.status = 401 ∨ refusal.status = 403 ∨
        ∃ failure, service.LookupFails request world failure ∧
          refusal = (Problem.ofFailure failure).response) := by
  rw [agent_eq]
  rcases hvalue : request.header? "x-api-key" with - | value
  · have hnobody : ¬ Admits service.format none world := by
      rintro ⟨_, _, _, hnone, -⟩
      cases hnone
    obtain ⟨refusal, hrefused, hharmless, hstatus⟩ := admitted_refuses service none world hnobody
    refine ⟨refusal, hrefused, hharmless, hstatus.imp_right (Or.imp_right ?_)⟩
    rintro ⟨_, _, _, hnone, -⟩
    cases hnone
  rcases hread : readable? value with - | text
  · simp only [hread]
    exact ⟨_, rfl, List.forall_mem_nil _, .inl rfl⟩
  · simp only [hread]
    obtain ⟨refusal, hrefused, hharmless, hstatus⟩ :=
      admitted_refuses service (some text) world (by
        rintro ⟨_, credential, key, ⟨⟩, hparse, haccepts⟩
        exact h ⟨credential, key, ⟨value, text, hvalue, hread, hparse⟩, haccepts⟩)
    refine ⟨refusal, hrefused, hharmless, hstatus.imp_right (Or.imp_right ?_)⟩
    rintro ⟨_, credential, failure, ⟨⟩, hparse, hfails, hrefusal⟩
    exact ⟨failure, ⟨credential, ⟨value, text, hvalue, hread, hparse⟩, hfails⟩, hrefusal⟩

end Handler

/-! ### Without credentials -/

namespace Service

variable {service : Service} {request : Request} {route : Route}

/-- **Operators**: a request to their routes without an accepted token. -/
theorem Leads.without_operator (hleads : service.Leads request route)
    (hroute : route.forOperators = true) {world : World}
    (hunknown : ¬ service.KnowsOperator request world.now) :
    world.LeavesAlone (service.serve request) ∧
      (World.run (service.serve request) world).1.status = 401 := by
  obtain ⟨idsDrawn, log, harrival⟩ := arrival_eq request world
  obtain ⟨f, hendpoint⟩ := hleads.exists_operator hroute
  obtain ⟨refusal, hstatus, hrefused, hharmless⟩ :=
    Handler.operator_refuses (arrival request world) (by rw [harrival]; exact hunknown)
  obtain ⟨hrun, hturns⟩ := serve_of_refused hleads hendpoint hrefused
  refine ⟨World.leavesAlone (hturns hharmless), ?_⟩
  rw [hrun, Response.status_to, hstatus]

/-- **Agents**: a request for a validation without an accepted key. -/
theorem Leads.without_agent (hleads : service.Leads request .validation) {world : World}
    (hunknown : ¬ service.KnowsAgent request world) :
    world.LeavesAlone (service.serve request) ∧
      ((World.run (service.serve request) world).1.status = 401 ∨
        (World.run (service.serve request) world).1.status = 403 ∨
        ∃ failure, service.LookupFails request world failure ∧
          (World.run (service.serve request) world).1.status =
            (Problem.ofFailure failure).status) := by
  obtain ⟨idsDrawn, log, harrival⟩ := arrival_eq request world
  obtain ⟨f, hendpoint⟩ := hleads.exists_agent
  obtain ⟨refusal, hrefused, hharmless, hstatus⟩ :=
    Handler.agent_refuses (arrival request world) (by rw [harrival]; exact hunknown)
  obtain ⟨hrun, hturns⟩ := serve_of_refused hleads hendpoint hrefused
  refine ⟨World.leavesAlone (hturns hharmless), ?_⟩
  rw [hrun, Response.status_to]
  refine hstatus.imp_right (Or.imp_right ?_)
  rintro ⟨failure, hfails, rfl⟩
  rw [harrival] at hfails
  exact ⟨failure, hfails, rfl⟩

end Service

end Licensing.Http
