import Licensing.Proofs.Http.Failing
import Licensing.Proofs.System.Counting

/-!
# What a request for a validation is counted as

An agent that asks is authenticated first, and how that ends is counted. What the counters of
authentications are told and what the agent is told are settled together (`Handler.Judged`): neither
the rest of the endpoint nor what is around it counts an authentication or turns an agent away.

The main result is `Service.counts_authentication`. Where the key can be read, exactly one counter
grows, by one, and which one it is can be told from the key, from what is stored and from the
response alike. A key that cannot be read is refused as a malformed one before it is judged, and is
not counted (`Service.not_forall_counts_authentication`).

It rests on three facts, one for each part of the way that a request takes:

* the guard: an agent whose key can be read is known, rejected for some cause, or cannot be looked
  up, and that is counted once (`Handler.exists_judged`);
* behind it: once the agent is known nothing counts an authentication, and no response has a status
  by which agents are turned away (`Endpoint.impartial_answerKnown`);
* around both: arrival and the counters of requests touch none of these counters
  (`Service.counted_serve`).
-/

namespace Licensing

namespace Http

/-- The status tells that the agent was not let in. -/
def Response.TurnsAway (response : Response) : Prop :=
  response.status = 401 ∨ response.status = 403

/-! ### Once the agent is known -/

/-- What is left of a request for a validation once the agent is known. -/
def Endpoint.answerKnown (request : Request) : Handler Response := do
  let question ← Handler.form request .validate
  let verdict ← Handler.perform (License.validate question)
  return .json 200 (View.verdict verdict)

theorem Service.Leads.endpoint_eq {service : Service} {request : Request}
    (h : service.Leads request .validation) :
    Route.validation.endpoint? service request request.answeredAs =
      some (Handler.agent service request >>= fun _ ↦ Endpoint.answerKnown request) := by
  have hmethod := h.method
  generalize request.answeredAs = method at hmethod ⊢
  cases method with
  | post => rfl
  | get | head | put | patch | delete | other => cases hmethod

/-- No failure of an operation turns an agent away. -/
theorem not_turnsAway_ofFailure (failure : Failure) :
    ¬ (Problem.ofFailure failure).response.TurnsAway := by
  obtain ⟨kind, detail⟩ := failure
  cases kind <;> exact not_or.2 ⟨nofun, nofun⟩

section Known

variable {α : Type} {outcome : AuthOutcome}

/-- A program that counts no authentication, and turns no agent away. -/
abbrev Impartial (outcome : AuthOutcome) (p : Program (Except Response α)) : Prop :=
  p.Concludes (Effect.Spares (.authentications outcome)) (Program.Cuts (¬ ·.TurnsAway))

theorem impartial_fail (failure : Failure) :
    Impartial outcome (Handler.fail failure : Handler α).run := by
  have hrefused := not_turnsAway_ofFailure failure
  unfold Handler.fail
  split
  · exact ⟨trivial, fun _ ↦ hrefused⟩
  · exact hrefused

theorem impartial_form (request : Request) (form : Form α) :
    Impartial outcome (Handler.form request form).run := by
  unfold Handler.form
  split
  · next fault _ => cases fault <;> exact not_or.2 ⟨nofun, nofun⟩
  · next value _ =>
    unfold Violation.problem?
    split_ifs
    · trivial
    · exact not_or.2 ⟨nofun, nofun⟩

theorem spares_validate (question : ValidationRequest) :
    Program.Only (Effect.Spares (.authentications outcome)) (License.validate question).run := by
  show Program.Only _ (License.validate question)
  rw [License.validate_eq]
  refine ⟨trivial, ?_⟩
  rintro (failure | found)
  · trivial
  · refine ⟨trivial, fun now ↦ ?_⟩
    have hnoted : ∀ answer : Verdict, Program.Only (Effect.Spares (.authentications outcome))
        (.act (.count (.validations answer.reason) 1) fun _ ↦
          .done (.ok answer) : Operation Verdict) := fun _ ↦ ⟨nofun, fun _ ↦ trivial⟩
    simp only [License.judge]
    cases followUp? found question now with
    | some task => exact ⟨trivial, fun _ ↦ hnoted _⟩
    | none => exact hnoted _

/-- **Once the agent is known**, no authentication is counted, and it is not turned away. -/
theorem Endpoint.impartial_answerKnown (outcome : AuthOutcome) (request : Request) :
    Program.Concludes (Effect.Spares (.authentications outcome))
      (fun result ↦ ¬ (Service.response result).TurnsAway) (answerKnown request).run := by
  refine (impartial_form request .validate).except_bind (fun _ ↦ id) fun question ↦ ?_
  have hperform : Impartial outcome (Handler.perform (License.validate question)).run := by
    rw [Handler.run_perform]
    refine Program.Concludes.bind (spares_validate question).concludes ?_
    rintro (failure | verdict) -
    · exact impartial_fail failure
    · trivial
  exact hperform.except_bind (fun _ ↦ id) fun verdict ↦ not_or.2 ⟨nofun, nofun⟩

end Known

/-! ### Who asks -/

/-- The header for API keys, if there is one, can be read. -/
def Request.KeyReadable (request : Request) : Prop :=
  ∀ value, request.header? "x-api-key" = some value → (readable? value).isSome = true

/-- What can be read of the header for API keys. -/
def Request.presented? (request : Request) : Option String :=
  (request.header? "x-api-key").bind readable?

namespace Service

variable {service : Service} {request : Request} {credential : Credential} {world : World}

theorem presents_iff : service.Presents request credential ↔
    ∃ text, request.presented? = some text ∧ service.format.parse text = .ok credential := by
  constructor
  · rintro ⟨value, text, hvalue, hread, hparse⟩
    exact ⟨text, Option.bind_eq_some_iff.2 ⟨value, hvalue, hread⟩, hparse⟩
  · rintro ⟨text, hpresented, hparse⟩
    obtain ⟨value, hvalue, hread⟩ := Option.bind_eq_some_iff.1 hpresented
    exact ⟨value, text, hvalue, hread, hparse⟩

theorem Presents.unique {other : Credential} (h : service.Presents request credential)
    (h' : service.Presents request other) : credential = other := by
  obtain ⟨text, htext, hparse⟩ := presents_iff.1 h
  obtain ⟨text', htext', hparse'⟩ := presents_iff.1 h'
  obtain rfl : text = text' := Option.some.inj (htext.symm.trans htext')
  exact Except.ok.inj (hparse.symm.trans hparse')

/-- Nobody is known by a key that could not be looked up. -/
theorem KnowsAgent.not_lookupFails (h : service.KnowsAgent request world) (failure : Failure) :
    ¬ service.LookupFails request world failure := by
  obtain ⟨credential, key, hpresents, hanswers, -⟩ := h
  rintro ⟨other, hother, hfails⟩
  obtain rfl := hpresents.unique hother
  cases hanswers.symm.trans hfails

end Service

namespace Handler

variable {service : Service} {request : Request} {world : World}

/-- How an agent is judged: what is counted, and whether the agent is let in or with which response
it is refused. -/
inductive Judged (service : Service) (request : Request) (world : World) :
    AuthOutcome → Except Response AuthenticatedKey → Prop
  | success {holder : AuthenticatedKey} (hknown : service.KnowsAgent request world) :
      Judged service request world .success (.ok holder)
  | rejected {cause : AuthFailure} (hunknown : ¬ service.KnowsAgent request world)
      (hanswers : ∀ failure, ¬ service.LookupFails request world failure) :
      Judged service request world (.rejected cause) (.error (Problem.ofAuthFailure cause).response)
  | error {failure : Failure} (hfails : service.LookupFails request world failure) :
      Judged service request world .error (.error (Problem.ofFailure failure).response)

/-- What cannot be read is refused as malformed, and nothing is done. -/
theorem agent_of_not_readable (h : ¬ request.KeyReadable) :
    (agent service request).run = .done (.error (Problem.ofAuthFailure .malformed).response) := by
  obtain ⟨value, hvalue, hread⟩ : ∃ value, request.header? "x-api-key" = some value ∧
      readable? value = none := by
    simpa [Request.KeyReadable] using h
  rw [agent_eq]
  simp only [hvalue, hread]

theorem agent_of_readable (h : request.KeyReadable) :
    (agent service request).run = admitted service request.presented? := by
  rw [agent_eq, Request.presented?]
  rcases hvalue : request.header? "x-api-key" with - | value
  · rfl
  · obtain ⟨text, hread⟩ := Option.isSome_iff_exists.1 (h value hvalue)
    simp only [hread, Option.bind_some]

/-- Whatever comes after an authentication counts none. -/
theorem only_ofResult (result : AuthResult) (outcome : AuthOutcome) :
    Program.Only (Effect.Spares (.authentications outcome)) (ofResult result).run := by
  rcases result with holder | cause | failure
  · trivial
  · trivial
  · exact (impartial_fail failure).only

/-- What an agent is told of the result. -/
def told : AuthResult → Except Response AuthenticatedKey
  | .accepted holder => .ok holder
  | .rejected cause => .error (Problem.ofAuthFailure cause).response
  | .failed failure => .error (Problem.ofFailure failure).response

theorem run_ofResult_fst (result : AuthResult) (world : World) :
    (World.run (ofResult result).run world).1 = told result := by
  rcases result with holder | cause | failure
  · rfl
  · rfl
  · exact (fail_refuses failure world).1

/-- No turn of a check counts anything. -/
theorem spares_of_checked {format : CredentialFormat} {presented : Option String}
    {checking : List Turn} {result : AuthResult}
    (h : ApiKey.Checked format presented checking result) (counter : Counter) :
    ∀ turn ∈ checking, turn.1.Spares counter := by
  cases h <;> simp [Effect.Spares]

/-- Who presents nothing that fits the format is neither known nor looked up. -/
theorem Judged.of_unfit (h : ∀ credential, ¬ service.Presents request credential)
    (cause : AuthFailure) :
    Judged service request world (.rejected cause) (.error (Problem.ofAuthFailure cause).response) :=
  .rejected (fun ⟨credential, _, hpresents, _⟩ ↦ h credential hpresents)
    fun _ ⟨credential, hpresents, _⟩ ↦ h credential hpresents

/-- Who presents a key that is looked up is rejected unless what is found has its hash. -/
theorem Judged.of_wrong {credential : Credential} (hpresents : service.Presents request credential)
    (hanswers : world.failure? (.findEnabledKey credential.lookup) = none)
    (hwrong : ∀ key, world.stores.keys.findEnabled credential.lookup = some key →
      ¬ verifyKey credential.raw key.hash = true) :
    Judged service request world (.rejected .notFoundOrDisabled)
      (.error (Problem.ofAuthFailure .notFoundOrDisabled).response) := by
  refine .rejected ?_ ?_
  · rintro ⟨other, key, hother, -, hkey, hverify⟩
    obtain rfl := hpresents.unique hother
    exact hwrong key hkey hverify
  · rintro failure ⟨other, hother, hfails⟩
    obtain rfl := hpresents.unique hother
    cases hanswers.symm.trans hfails

/-- **A check judges the agent by what is stored**, given that its lookup is answered by the
world. -/
theorem judged_of_checked {checking : List Turn} {result : AuthResult}
    (h : ApiKey.Checked service.format request.presented? checking result)
    (hlookup : ∀ lookup answer rest, checking = ⟨.store (.findEnabledKey lookup), answer⟩ :: rest →
      answer = match world.failure? (.findEnabledKey lookup) with
        | some failure => .error failure
        | none => .ok (world.stores.keys.findEnabled lookup)) :
    Judged service request world result.outcome (told result) := by
  have hfound : ∀ {lookup found rest},
      checking = ⟨.store (.findEnabledKey lookup), .ok found⟩ :: rest →
      world.failure? (.findEnabledKey lookup) = none ∧
        world.stores.keys.findEnabled lookup = found := by
    intro lookup found rest heq
    have hanswer := hlookup _ _ _ heq
    split at hanswer
    · cases hanswer
    · next hanswers => exact ⟨hanswers, (Except.ok.inj hanswer).symm⟩
  generalize hpresented : request.presented? = presented at h
  cases h with
  | missing =>
    refine .of_unfit (fun credential hpresents ↦ ?_) _
    obtain ⟨text, htext, -⟩ := Service.presents_iff.1 hpresents
    cases hpresented.symm.trans htext
  | @unfit text cause hparse =>
    refine .of_unfit (fun credential hpresents ↦ ?_) _
    obtain ⟨other, hother, hfits⟩ := Service.presents_iff.1 hpresents
    obtain rfl : text = other := Option.some.inj (hpresented.symm.trans hother)
    cases hparse.symm.trans hfits
  | @failed text credential failure hparse =>
    have hanswer := hlookup _ _ _ rfl
    split at hanswer
    · next hfails =>
      obtain rfl := Except.error.inj hanswer
      exact .error ⟨credential, Service.presents_iff.2 ⟨text, hpresented, hparse⟩, hfails⟩
    · cases hanswer
  | @unknown text credential hparse =>
    obtain ⟨hanswers, hstored⟩ := hfound rfl
    refine .of_wrong (Service.presents_iff.2 ⟨text, hpresented, hparse⟩) hanswers ?_
    rw [hstored]
    exact nofun
  | @wrong text credential key hparse hverify =>
    obtain ⟨hanswers, hstored⟩ := hfound rfl
    refine .of_wrong (Service.presents_iff.2 ⟨text, hpresented, hparse⟩) hanswers ?_
    rw [hstored]
    rintro _ ⟨⟩
    exact hverify
  | @accepted text credential key hparse hverify =>
    obtain ⟨hanswers, hstored⟩ := hfound rfl
    exact .success ⟨credential, key, Service.presents_iff.2 ⟨text, hpresented, hparse⟩, hanswers,
      hstored, hverify⟩

/-- **An agent whose key can be read is judged, and that is counted once.** -/
theorem exists_judged (hreadable : request.KeyReadable) (world : World) :
    ∃ outcome, Judged service request world outcome
        (World.run (agent service request).run world).1 ∧
      ∀ other, Turn.counted (.authentications other)
        (World.turns (agent service request).run world) = if other = outcome then 1 else 0 := by
  obtain ⟨checking, hchecked, hturns⟩ :=
    World.post_of_obeys (Origin.obeys_authenticate service.format request.presented?) world
  rw [List.nil_append] at hturns
  have hrun := World.run_bind (ApiKey.authenticate service.format request.presented?)
    (fun result ↦ (ofResult result).run) world
  have hbind := World.turns_bind (ApiKey.authenticate service.format request.presented?)
    (fun result ↦ (ofResult result).run) world
  rw [agent_of_readable hreadable, admitted, hbind, hturns]
  rw [show World.run (Program.bind _ _) world = _ from hrun, run_ofResult_fst]
  generalize (World.run (ApiKey.authenticate service.format request.presented?) world).1 = result
    at hchecked hturns ⊢
  refine ⟨result.outcome, judged_of_checked hchecked ?_, fun other ↦ ?_⟩
  · rintro lookup answer rest rfl
    exact answer_of_lookup hturns
  · rw [Turn.counted_append, Turn.counted_append,
      Turn.counted_of_spares (spares_of_checked hchecked _),
      Turn.counted_of_spares (World.forall_turns_of_only (only_ofResult result other))]
    simp [Turn.amount]

end Handler

/-! ### The whole request -/

namespace Service

variable {service : Service} {request : Request} {world : World} {outcome : AuthOutcome}

/-- What is around the endpoint counts no authentication. -/
theorem counted_serve (h : service.unobserved? request = none) (outcome : AuthOutcome)
    (world : World) :
    Turn.counted (.authentications outcome) (World.turns (service.serve request) world) =
      Turn.counted (.authentications outcome)
        (World.turns (respond service request) (arrival request world)) := by
  have hid : Program.Only (Effect.Spares (.authentications outcome)) (requestId request) := by
    unfold requestId
    cases (request.header? "x-request-id").bind readable? with
    | some text => trivial
    | none => exact ⟨trivial, fun _ ↦ trivial⟩
  have hidle : ∀ {α : Type} {p : Program α} {world : World},
      p.Only (Effect.Spares (.authentications outcome)) →
      Turn.counted (.authentications outcome) (World.turns p world) = 0 :=
    fun hp ↦ Turn.counted_of_spares (World.forall_turns_of_only hp)
  have hcounters : ∀ response world, Turn.counted (.authentications outcome)
      (World.turns (countAll (counters request response)) world) = 0 := by
    intro response world
    refine hidle ?_
    unfold counters Counter.ofRequest
    split
    · exact ⟨nofun, fun _ ↦ ⟨nofun, fun _ ↦ ⟨nofun, fun _ ↦ trivial⟩⟩⟩
    · exact ⟨nofun, fun _ ↦ ⟨nofun, fun _ ↦ trivial⟩⟩
  rw [serve_eq h, World.turns_bind, Turn.counted_append, hidle hid, Nat.zero_add]
  show Turn.counted _ (⟨.log _, ()⟩ ::
    World.turns ((respond service request).bind _) (arrival request world)) = _
  rw [Turn.counted_cons, World.turns_bind, Turn.counted_append, World.turns_bind,
    Turn.counted_append, hcounters]
  exact Nat.zero_add _

/-- A request for a validation is a `POST`. -/
theorem Leads.method_eq (h : service.Leads request .validation) : request.method = .post := by
  have hmethod := h.method
  unfold Request.answeredAs at hmethod
  cases hasked : request.method with
  | post => rfl
  | get | head | put | patch | delete | other => simp [hasked, Route.endpoint?] at hmethod

/-- What the agent is told goes with what the guard says: the refusal itself, or, if the agent is
let in, nothing that turns it away. -/
def Heeds (told : Response) : Except Response AuthenticatedKey → Prop
  | .ok _ => ¬ told.TurnsAway
  | .error refusal => told = refusal

/-- **What the agent is told and what is counted** is what the guard says. -/
theorem Leads.guarded (hleads : service.Leads request .validation) (world : World) :
    let asked := World.run (Handler.agent service request).run (arrival request world)
    (∀ outcome, Turn.counted (.authentications outcome)
        (World.turns (service.serve request) world) =
      Turn.counted (.authentications outcome)
        (World.turns (Handler.agent service request).run (arrival request world))) ∧
    Heeds (World.run (service.serve request) world).1 asked.1 := by
  intro asked
  have hobserved := unobserved?_of_leads hleads
  have hrespond := respond_eq hleads.path hleads.endpoint_eq
  have hto : ∀ response : Response, response.to request.method = response := by
    intro response
    rw [hleads.method_eq]
    rfl
  have hrun : (World.run (service.serve request) world).1 = response
      (World.run (Handler.agent service request >>= fun _ ↦ Endpoint.answerKnown request).run
        (arrival request world)).1 := by
    rw [run_serve hobserved, hrespond]
    exact (hto _).trans (congrArg Prod.fst (World.run_bind _ _ _))
  have hcounted : ∀ outcome, Turn.counted (.authentications outcome)
      (World.turns (service.serve request) world) = Turn.counted (.authentications outcome)
      (World.turns (Handler.agent service request >>= fun _ ↦ Endpoint.answerKnown request).run
        (arrival request world)) := by
    intro outcome
    rw [counted_serve hobserved, hrespond, World.turns_bind, Turn.counted_append]
    rfl
  rw [hrun]
  simp only [hcounted]
  rcases hasked : asked.1 with refusal | holder
  · obtain ⟨hend, hturns⟩ := Handler.bind_of_refused hasked fun _ ↦ Endpoint.answerKnown request
    rw [hend, hturns]
    exact ⟨fun _ ↦ rfl, rfl⟩
  · have hrest : World.run (Handler.agent service request >>= fun _ ↦
        Endpoint.answerKnown request).run (arrival request world) =
        World.run (Endpoint.answerKnown request).run asked.2 := by
      rw [Handler.run_bind]
      refine (World.run_bind _ _ _).trans ?_
      rw [hasked]
    refine ⟨fun outcome ↦ ?_, ?_⟩
    · have hspares := (Endpoint.impartial_answerKnown outcome request).only
      rw [Handler.run_bind, World.turns_bind, Turn.counted_append, hasked,
        Turn.counted_of_spares (World.forall_turns_of_only hspares), Nat.add_zero]
    · rw [hrest]
      exact World.good_of_concludes (Endpoint.impartial_answerKnown .success request) _

/-- The outcome is the one that can be told from the key and from what is stored, and also from the
response: an agent that is rejected is told why, and no other response has its status. -/
structure Tells (service : Service) (request : Request) (world : World) (told : Response)
    (outcome : AuthOutcome) : Prop where
  success : outcome = .success ↔ service.KnowsAgent request world
  error : outcome = .error ↔ ∃ failure, service.LookupFails request world failure
  rejected : ∀ cause, outcome = .rejected cause ↔ told = (Problem.ofAuthFailure cause).response
  unauthenticated : told.status = 401 ↔
    outcome = .rejected .missing ∨ outcome = .rejected .malformed
  forbidden : told.status = 403 ↔ outcome = .rejected .notFoundOrDisabled

variable {told : Response}

/-- Where the agent is not turned away, it was not rejected. -/
theorem Tells.of_not_turnsAway (htold : ¬ told.TurnsAway)
    (hrejected : ∀ cause, outcome ≠ .rejected cause)
    (hsuccess : outcome = .success ↔ service.KnowsAgent request world)
    (herror : outcome = .error ↔ ∃ failure, service.LookupFails request world failure) :
    service.Tells request world told outcome where
  success := hsuccess
  error := herror
  rejected cause := iff_of_false (hrejected cause)
    fun heq ↦ htold (heq ▸ Handler.status_ofAuthFailure cause)
  unauthenticated := iff_of_false (fun h ↦ htold (.inl h))
    (not_or.2 ⟨hrejected .missing, hrejected .malformed⟩)
  forbidden := iff_of_false (fun h ↦ htold (.inr h)) (hrejected .notFoundOrDisabled)

/-- Each cause has a response of its own. -/
theorem ofAuthFailure_response_injective {cause other : AuthFailure}
    (h : (Problem.ofAuthFailure cause).response = (Problem.ofAuthFailure other).response) :
    cause = other := by
  revert h
  cases cause <;> cases other <;> decide

/-- **The guard's judgement fits what the agent is told.** -/
theorem Tells.of_judged {result : Except Response AuthenticatedKey}
    (h : Handler.Judged service request world outcome result)
    (htold : Heeds told result) : service.Tells request world told outcome := by
  cases h with
  | success hknown =>
    exact .of_not_turnsAway htold nofun (iff_of_true rfl hknown)
      (iff_of_false nofun fun ⟨failure, hfails⟩ ↦ hknown.not_lookupFails failure hfails)
  | error hfails =>
    have htold : ¬ told.TurnsAway := Eq.symm htold ▸ not_turnsAway_ofFailure _
    exact .of_not_turnsAway htold nofun
      (iff_of_false nofun fun hknown ↦ hknown.not_lookupFails _ hfails)
      (iff_of_true rfl ⟨_, hfails⟩)
  | @rejected cause hunknown hanswers =>
    obtain rfl : told = _ := htold
    refine ⟨iff_of_false nofun hunknown, iff_of_false nofun (not_exists.2 hanswers),
      fun other ↦ ?_, ?_, ?_⟩
    · rw [AuthOutcome.rejected.injEq]
      exact ⟨fun heq ↦ heq ▸ rfl, ofAuthFailure_response_injective⟩
    · cases cause <;> decide
    · cases cause <;> decide

theorem knowsAgent_arrival :
    service.KnowsAgent request (arrival request world) ↔ service.KnowsAgent request world := by
  obtain ⟨idsDrawn, log, harrival⟩ := arrival_eq request world
  rw [harrival]
  rfl

theorem lookupFails_arrival (failure : Failure) :
    service.LookupFails request (arrival request world) failure ↔
      service.LookupFails request world failure := by
  obtain ⟨idsDrawn, log, harrival⟩ := arrival_eq request world
  rw [harrival]
  rfl

/-- What the counter of an outcome is after a request for a validation. -/
theorem Leads.count_metrics (hleads : service.Leads request .validation) (world : World)
    (outcome : AuthOutcome) :
    (World.run (service.serve request) world).2.metrics.count (.authentications outcome) =
      world.metrics.count (.authentications outcome) +
        Turn.counted (.authentications outcome)
          (World.turns (Handler.agent service request).run (arrival request world)) := by
  have hother : ∀ task, Counter.authentications outcome ≠ .droppedTasks task := fun _ ↦ nofun
  rw [World.count_metrics_run hother, (hleads.guarded world).1]

/-- A key that cannot be read is refused as malformed, and is not counted. -/
theorem Leads.not_counted (hleads : service.Leads request .validation)
    (hunreadable : ¬ request.KeyReadable) (world : World) :
    (World.run (service.serve request) world).1 = (Problem.ofAuthFailure .malformed).response ∧
      ∀ outcome,
        (World.run (service.serve request) world).2.metrics.count (.authentications outcome) =
          world.metrics.count (.authentications outcome) := by
  have hguarded := (hleads.guarded world).2
  rw [Handler.agent_of_not_readable hunreadable] at hguarded
  refine ⟨hguarded, fun outcome ↦ ?_⟩
  rw [hleads.count_metrics, Handler.agent_of_not_readable hunreadable]
  rfl

/-- **What a request for a validation is counted as**, whatever stands in its headers and its body,
whatever is stored and whatever fails. If its key can be read, or none is presented, exactly one
counter of authentications grows, and by one: that of the outcome, which is success exactly if the
key is accepted, an error exactly if it could not be looked up, and a rejection exactly if the
response says so, with the cause that it gives. If its key cannot be read, the response is that of a
malformed key and no counter of authentications grows. -/
theorem counts_authentication (hleads : service.Leads request .validation) (world : World) :
    let served := World.run (service.serve request) world
    (request.KeyReadable → ∃ outcome,
      (∀ other, served.2.metrics.count (.authentications other) =
        world.metrics.count (.authentications other) + if other = outcome then 1 else 0) ∧
      service.Tells request world served.1 outcome) ∧
    (¬ request.KeyReadable → served.1 = (Problem.ofAuthFailure .malformed).response ∧
      ∀ outcome, served.2.metrics.count (.authentications outcome) =
        world.metrics.count (.authentications outcome)) := by
  refine ⟨fun hreadable ↦ ?_, fun hunreadable ↦ hleads.not_counted hunreadable world⟩
  obtain ⟨outcome, hjudged, hcounted⟩ := Handler.exists_judged hreadable (arrival request world)
  have htells := Tells.of_judged hjudged (hleads.guarded world).2
  refine ⟨outcome, fun other ↦ ?_, htells.success.trans knowsAgent_arrival,
    htells.error.trans (exists_congr lookupFails_arrival), htells.rejected,
    htells.unauthenticated, htells.forbidden⟩
  rw [hleads.count_metrics, hcounted]

/-- A request for a validation that presents a key, or none. -/
def presenting (key : Option String) : Request where
  method := .post
  path := "/api/v1/licenses/validate"
  headers := key.toList.map fun value ↦ ("x-api-key", value)

theorem leads_presenting (key : Option String) :
    ({} : Service).Leads (presenting key) .validation := by
  refine ⟨nofun, ?_, rfl⟩
  show Route.ofPath? "/api/v1/licenses/validate" = some .validation
  decide

/-- Who presents no key is told so, and is counted as one who presents none. -/
theorem counts_authentication_missing : ({} : Service).Leads (presenting none) .validation ∧
    (World.run (({} : Service).serve (presenting none)) { now := ⟨0⟩ }).2.metrics.count
      (.authentications (.rejected .missing)) = 1 := by
  obtain ⟨outcome, hgrown, htells⟩ :=
    (counts_authentication (leads_presenting none) { now := ⟨0⟩ }).1 nofun
  have houtcome : outcome = .rejected .missing := (htells.rejected .missing).2 rfl
  exact ⟨leads_presenting none, (hgrown _).trans (by rw [houtcome]; rfl)⟩

/-- Exactly one counter of authentications has grown, and by one. -/
def CountsOne (before after : Metrics) : Prop :=
  ∃ outcome, ∀ other, after.count (.authentications other) =
    before.count (.authentications other) + if other = outcome then 1 else 0

/-- **Not every request for a validation is counted as an authentication**: one is refused as
malformed for a letter that no header can be read with, and is not counted. -/
theorem not_forall_counts_authentication : ¬ ∀ (service : Service) (request : Request)
    (world : World), service.Leads request .validation →
      CountsOne world.metrics (World.run (service.serve request) world).2.metrics := by
  intro hall
  obtain ⟨outcome, hone⟩ := hall {} (presenting (some "lm_é")) { now := ⟨0⟩ } (leads_presenting _)
  have hunreadable : ¬ (presenting (some "lm_é")).KeyReadable := fun h ↦ by
    cases h "lm_é" rfl
  have hnone := ((leads_presenting (some "lm_é")).not_counted hunreadable { now := ⟨0⟩ }).2 outcome
  have hgrown := hone outcome
  rw [hnone, if_pos rfl] at hgrown
  exact absurd hgrown (Nat.succ_ne_self _).symm

end Service

end Http

end Licensing
