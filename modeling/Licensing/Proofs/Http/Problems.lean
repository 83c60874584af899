import Licensing.Proofs.Http.Failing

/-!
# How errors are told

A guarded route refuses a request at one of its steps: who asks, the path, the query, the body and
its rules, the spelling of an identifier or a status, the operation. Each step refuses with the body
of a problem (`Handler.Told`), whatever a call is answered, with two exceptions. A query that cannot
be read and a segment of the path that is no text are refused in plain words
(`Request.plainRefusal?`), and only to an operator who is known, since who asks comes first.

The main result is `Service.tells_problems`. It is put together from two lemmas about a request that
leads to a guarded route: `Service.Leads.plain`, for what is refused in plain words, and
`Service.Leads.tells`, for everything else. The second rests on every endpoint being a row of steps
that tell what they refuse (`Told.tellsErrors_bind`), and on the body of a problem being read back
as one (`Problem.isErrorBody`); since it speaks of every answer that a step can get, no store and no
failure has to be described.

By `Service.not_forall_tellsProblem`, not every error has the body of a problem.
-/

namespace Licensing

namespace Http

open Program (Concludes Cuts)

variable {α : Type}

/-! ### The body of an error -/

/-- The body of an error: an object that has only the field `error`, which has the name of a code, a
message, perhaps details, and nothing else. -/
def IsErrorBody (body : Json) : Prop :=
  ∃ (code : ProblemCode) (message : String) (details : Option Json), body =
    .object [("error", .object ([("code", .string code.name)] ++
      (details.map (("details", ·))).toList ++ [("message", .string message)]))]

/-- The response has the body of an error. -/
def Response.TellsProblem (response : Response) : Prop :=
  ∃ body, response.content = .json body ∧ IsErrorBody body

theorem Problem.isErrorBody (problem : Problem) : IsErrorBody problem.body := by
  obtain ⟨status, code, message, details⟩ := problem
  refine ⟨code, message, details, ?_⟩
  cases details <;> rfl

theorem Problem.tellsProblem (problem : Problem) : problem.response.TellsProblem :=
  ⟨problem.body, rfl, problem.isErrorBody⟩

/-! ### Steps of a handler -/

/-- Whatever it is answered, the program has an end of the sort. -/
abbrev Ends (good : α → Prop) (p : Program α) : Prop := p.Concludes (fun _ ↦ True) good

theorem ends_of_forall {good : α → Prop} (h : ∀ value, good value) (p : Program α) :
    Ends good p := by
  induction p with
  | done value => exact h value
  | act effect next ih => exact ⟨trivial, ih⟩

namespace Handler

/-- What the handler refuses, it refuses with the body of a problem. -/
abbrev Told (handler : Handler α) : Prop := Ends (Cuts Response.TellsProblem) handler.run

theorem told_fail (failure : Failure) : Told (fail failure : Handler α) := by
  unfold fail
  split
  · exact ⟨trivial, fun _ ↦ Problem.tellsProblem _⟩
  · exact Problem.tellsProblem _

/-- Whatever comes of an operation. -/
theorem told_perform (op : Operation α) : Told (perform op) := by
  show Ends _ (perform op).run
  rw [run_perform]
  refine (ends_of_forall (fun _ ↦ trivial) op.run : Ends (fun _ ↦ True) _).bind ?_
  rintro (failure | value) -
  · exact told_fail failure
  · trivial

theorem told_operator (service : Service) (request : Request) :
    Told (operator service request) := by
  show Ends _ (operator service request).run
  rw [operator_eq]
  split
  · exact Problem.tellsProblem _
  · next token _ =>
    refine ⟨trivial, fun now ↦ ?_⟩
    show Cuts Response.TellsProblem _
    split
    · trivial
    · exact Problem.tellsProblem _

theorem told_agent (service : Service) (request : Request) : Told (agent service request) := by
  have hadmitted : ∀ presented,
      Ends (Cuts Response.TellsProblem) (admitted service presented) := by
    intro presented
    refine (ends_of_forall (fun _ ↦ trivial) (ApiKey.authenticate service.format presented) :
      Ends (fun _ ↦ True) _).bind ?_
    rintro (holder | cause | failure) -
    · trivial
    · exact Problem.tellsProblem _
    · exact told_fail failure
  show Ends _ (agent service request).run
  rw [agent_eq]
  split
  · exact hadmitted none
  · split
    · exact hadmitted _
    · exact Problem.tellsProblem _

/-- A segment that is text is not refused. -/
theorem told_segment {encoded : String} (h : decodeSegment? encoded ≠ none) :
    Told (segment encoded) := by
  unfold segment
  split
  · trivial
  · next hnone => exact absurd hnone h

theorem told_form (request : Request) (wanted : Form α) : Told (form request wanted) := by
  unfold form
  split
  · exact Problem.tellsProblem _
  · split
    · exact Problem.tellsProblem _
    · trivial

theorem told_spelled (parse : String → Option α) (failure : String → Failure) (text : String) :
    Told (spelled parse failure text) := by
  unfold spelled
  split
  · trivial
  · exact told_fail _

/-- An endpoint tells its errors: it ends in a response that is none, or that has the body of a
problem. -/
abbrev TellsErrors (handler : Handler Response) : Prop :=
  Ends (fun result ↦ 400 ≤ (Service.response result).status →
    (Service.response result).TellsProblem) handler.run

/-- A step that tells what it refuses may come before anything that tells its errors. -/
theorem Told.tellsErrors_bind {handler : Handler α} {f : α → Handler Response} (h : Told handler)
    (hf : ∀ value, TellsErrors (f value)) : TellsErrors (handler >>= f) :=
  h.except_bind (fun _ htold _ ↦ htold) hf

/-- An operation, and then a response that is no error. -/
theorem tellsErrors_perform (op : Operation α) {answer : α → Response} {status : Nat}
    (hanswer : ∀ value, (answer value).status = status) (hstatus : status < 400) :
    TellsErrors (perform op >>= fun value ↦ return answer value) :=
  (told_perform op).tellsErrors_bind fun value herror ↦
    absurd (hanswer value ▸ herror) (Nat.not_le_of_lt hstatus)

end Handler

/-! ### Endpoints -/

/-- What is refused in plain words, once it is known who asks: a query that cannot be read, and an
identifier in the path that is no text. -/
def Request.plainRefusal? (request : Request) : Route → Option String
  | .licenses =>
    if request.answeredAs = .get ∧ ListingQuery.ofText? request.query = none then
      some "Failed to deserialize query string"
    else none
  | .license id | .licenseStatus id | .apiKey id =>
    if decodeSegment? id = none then some "Invalid URL" else none
  | _ => none

/-- Whether a route is guarded: it is for operators, or for agents. -/
def Route.IsGuarded (route : Route) : Prop := route.forOperators = true ∨ route = .validation

variable {service : Service} {request : Request} {route : Route} {world : World}

section Endpoints

open Handler

/-- **Every guarded endpoint tells its errors**, unless something is refused in plain words. -/
theorem Route.tellsErrors_endpoint {handler : Handler Response} (hguarded : route.IsGuarded)
    (hplain : request.plainRefusal? route = none)
    (h : route.endpoint? service request request.answeredAs = some handler) :
    TellsErrors handler := by
  have hoperator := told_operator service request
  have hsegment : ∀ id, (if decodeSegment? id = none then some "Invalid URL" else none) = none →
      Told (Handler.segment id) := by
    intro id hid
    refine told_segment fun hnone ↦ ?_
    rw [if_pos hnone] at hid
    cases hid
  generalize hmethod : request.answeredAs = method at h
  cases route with
  | health | ready | live => rcases hguarded with hguarded | hguarded <;> cases hguarded
  | validation =>
    cases method <;> cases h
    refine (told_agent service request).tellsErrors_bind fun _ ↦ ?_
    refine (told_form request .validate).tellsErrors_bind fun question ↦ ?_
    exact tellsErrors_perform _ (fun _ ↦ rfl) (by decide)
  | licenses =>
    cases method <;> cases h
    · refine hoperator.tellsErrors_bind fun _ ↦ ?_
      split
      · next hquery =>
        rw [Request.plainRefusal?, if_pos ⟨hmethod, hquery⟩] at hplain
        cases hplain
      · refine (told_perform _).tellsErrors_bind fun listing ↦ ?_
        exact tellsErrors_perform _ (fun _ ↦ rfl) (by decide)
    · refine hoperator.tellsErrors_bind fun _ ↦ ?_
      refine (told_form request .issue).tellsErrors_bind fun wanted ↦ ?_
      exact tellsErrors_perform _ (fun _ ↦ rfl) (by decide)
  | license id =>
    cases method <;> cases h
    · refine hoperator.tellsErrors_bind fun _ ↦ ?_
      refine (hsegment id hplain).tellsErrors_bind fun text ↦ ?_
      refine (told_spelled _ _ text).tellsErrors_bind fun id ↦ ?_
      exact tellsErrors_perform _ (fun _ ↦ rfl) (by decide)
    · refine hoperator.tellsErrors_bind fun _ ↦ ?_
      refine (hsegment id hplain).tellsErrors_bind fun text ↦ ?_
      refine (told_form request .amend).tellsErrors_bind fun amendment ↦ ?_
      refine (told_spelled _ _ text).tellsErrors_bind fun id ↦ ?_
      exact tellsErrors_perform _ (fun _ ↦ rfl) (by decide)
  | licenseStatus id =>
    cases method <;> cases h
    refine hoperator.tellsErrors_bind fun _ ↦ ?_
    refine (hsegment id hplain).tellsErrors_bind fun text ↦ ?_
    refine (told_form request .status).tellsErrors_bind fun name ↦ ?_
    refine (told_spelled _ _ text).tellsErrors_bind fun id ↦ ?_
    refine (told_spelled _ _ name).tellsErrors_bind fun status ↦ ?_
    exact tellsErrors_perform _ (fun _ ↦ rfl) (by decide)
  | dashboard =>
    cases method <;> cases h
    refine hoperator.tellsErrors_bind fun _ ↦ ?_
    exact tellsErrors_perform _ (fun _ ↦ rfl) (by decide)
  | apiKeys =>
    cases method <;> cases h
    · refine hoperator.tellsErrors_bind fun _ ↦ ?_
      exact tellsErrors_perform _ (fun _ ↦ rfl) (by decide)
    · refine hoperator.tellsErrors_bind fun _ ↦ ?_
      refine (told_form request .createKey).tellsErrors_bind fun wanted ↦ ?_
      exact tellsErrors_perform _ (fun _ ↦ rfl) (by decide)
  | apiKey id =>
    cases method <;> cases h
    refine hoperator.tellsErrors_bind fun _ ↦ ?_
    refine (hsegment id hplain).tellsErrors_bind fun text ↦ ?_
    refine (told_spelled _ _ text).tellsErrors_bind fun id ↦ ?_
    exact tellsErrors_perform _ (fun _ ↦ rfl) (by decide)

/-- Whoever is known as an operator gets past the guard. -/
theorem Handler.operator_accepts (h : service.KnowsOperator request world.now) :
    ∃ claims, (World.run (operator service request).run world).1 = .ok claims := by
  obtain ⟨token, claims, hbearer, hverify⟩ := h
  refine ⟨claims, ?_⟩
  rw [operator_eq, hbearer]
  simp [World.run, World.perform, hverify]

/-- **Behind its guard, an endpoint refuses in plain words** what has to be refused so, before it
does anything. -/
theorem Service.Leads.plain_endpoint (hleads : service.Leads request route) {text : String}
    (hplain : request.plainRefusal? route = some text) :
    ∃ f : Token.Claims → Handler Response,
      route.endpoint? service request request.answeredAs =
        some (Handler.operator service request >>= f) ∧
      ∀ claims, (f claims).run = .done (.error ⟨400, .text text⟩) := by
  have hsegment : ∀ id (g : String → Handler Response),
      (if decodeSegment? id = none then some "Invalid URL" else none) = some text →
      (Handler.segment id >>= g).run = .done (.error ⟨400, .text text⟩) := by
    intro id g hid
    by_cases hnone : decodeSegment? id = none
    · rw [if_pos hnone] at hid
      cases hid
      rw [Handler.segment, hnone]
      rfl
    · rw [if_neg hnone] at hid
      cases hid
  have hmethod := hleads.method
  cases route with
  | health | ready | live | validation | dashboard | apiKeys => cases hplain
  | licenses =>
    rw [Request.plainRefusal?] at hplain
    split at hplain
    · next hquery =>
      cases hplain
      refine ⟨_, by rw [hquery.1]; rfl, fun claims ↦ ?_⟩
      simp only [hquery.2]
      rfl
    · cases hplain
  | license id =>
    generalize request.answeredAs = method at hmethod ⊢
    cases method <;> first
      | exact ⟨_, rfl, fun claims ↦ hsegment id _ hplain⟩
      | cases hmethod
  | licenseStatus id =>
    generalize request.answeredAs = method at hmethod ⊢
    cases method <;> first
      | exact ⟨_, rfl, fun claims ↦ hsegment id _ hplain⟩
      | cases hmethod
  | apiKey id =>
    generalize request.answeredAs = method at hmethod ⊢
    cases method <;> first
      | exact ⟨_, rfl, fun claims ↦ hsegment id _ hplain⟩
      | cases hmethod

end Endpoints

/-! ### Serving -/

namespace Service

/-- What is responded is what the endpoint comes to upon the arrival. -/
theorem Leads.answered {handler : Handler Response} (hleads : service.Leads request route)
    (hhandler : route.endpoint? service request request.answeredAs = some handler)
    (world : World) : (World.run (service.serve request) world).1 =
      (response (World.run handler.run (arrival request world)).1).to request.method := by
  rw [Service.run_serve (unobserved?_of_leads hleads), respond_eq hleads.path hhandler]
  exact congrArg (fun ended : Response × World ↦ ended.1.to request.method)
    (World.run_bind handler.run _ (arrival request world))

/-- **Plain words**: an operator who is known is told so of what cannot be decoded. -/
theorem Leads.plain (hleads : service.Leads request route) {text : String}
    (hplain : request.plainRefusal? route = some text)
    (hknown : service.KnowsOperator request world.now) :
    (World.run (service.serve request) world).1 =
      (⟨400, .text text⟩ : Response).to request.method := by
  obtain ⟨idsDrawn, log, harrival⟩ := arrival_eq request world
  obtain ⟨f, hendpoint, hrefused⟩ := hleads.plain_endpoint hplain
  obtain ⟨claims, haccepted⟩ := Handler.operator_accepts
    (show service.KnowsOperator request (arrival request world).now by rw [harrival]; exact hknown)
  rw [hleads.answered hendpoint, Handler.run_bind]
  rw [show World.run (Program.bind _ _) (arrival request world) = _ from World.run_bind _ _ _]
  rw [haccepted]
  simp only [hrefused]
  rfl

/-- **Problems**: anything else that goes wrong. -/
theorem Leads.tells (hleads : service.Leads request route) (hguarded : route.IsGuarded)
    (hdecoded : service.KnowsOperator request world.now → request.plainRefusal? route = none)
    (hmethod : request.method ≠ .head)
    (herror : 400 ≤ (World.run (service.serve request) world).1.status) :
    (World.run (service.serve request) world).1.TellsProblem := by
  have hsame : ∀ answer : Response, answer.to request.method = answer := fun _ ↦ if_neg hmethod
  obtain ⟨handler, hhandler⟩ := Option.isSome_iff_exists.1 hleads.method
  by_cases hplain : request.plainRefusal? route = none
  · have htells := World.good_of_concludes
      (Route.tellsErrors_endpoint hguarded hplain hhandler) (arrival request world)
    rw [hleads.answered hhandler, hsame] at herror ⊢
    exact htells herror
  · -- Who asks is not known, and that comes first.
    obtain ⟨text, htext⟩ := Option.ne_none_iff_exists'.1 hplain
    obtain ⟨idsDrawn, log, harrival⟩ := arrival_eq request world
    obtain ⟨f, hendpoint, -⟩ := hleads.plain_endpoint htext
    have hunknown : ¬ service.KnowsOperator request (arrival request world).now := by
      rw [harrival]
      exact fun hknown ↦ hplain (hdecoded hknown)
    obtain ⟨refusal, -, hrefused, -⟩ := Handler.operator_refuses (arrival request world) hunknown
    have htold := World.good_of_concludes (Handler.told_operator service request)
      (arrival request world)
    rw [hrefused] at htold
    rw [(serve_of_refused hleads hendpoint hrefused).1, hsame]
    exact htold

/-- **How a guarded route tells its errors.** Whatever stands in the headers, the path, the query
and the body of a request to a route for operators or for agents, and whatever the stores hold and
answer:

* an operator who is known, with a query for a listing that cannot be read or an identifier in the
  path that is no text, is told so in plain words, with status 400;
* any other error, of the caller or of the service, has the body of a problem, with one of the
  codes;
* to `HEAD`, nothing is told but the status. -/
theorem tells_problems (hleads : service.Leads request route) (hguarded : route.IsGuarded)
    (world : World) :
    let response := (World.run (service.serve request) world).1
    (∀ text, service.KnowsOperator request world.now → request.plainRefusal? route = some text →
      response = (⟨400, .text text⟩ : Response).to request.method) ∧
    (request.method ≠ .head → 400 ≤ response.status →
      (service.KnowsOperator request world.now → request.plainRefusal? route = none) →
      response.TellsProblem) ∧
    (request.method = .head → response.content = .none) := by
  refine ⟨fun text hknown hplain ↦ hleads.plain hplain hknown,
    fun hmethod herror hdecoded ↦ hleads.tells hguarded hdecoded hmethod herror, fun hhead ↦ ?_⟩
  obtain ⟨handler, hhandler⟩ := Option.isSome_iff_exists.1 hleads.method
  show (World.run (service.serve request) world).1.content = .none
  rw [hleads.answered hhandler, Response.to, if_pos hhead]

/-- An operator who is known asks for a listing of a length that is no number. -/
def mislisting : Request :=
  { revoking with method := .get, path := "/api/v1/licenses", query := "limit=many", body := [] }

theorem leads_mislisting : guarded.Leads mislisting .licenses := ⟨nofun, by decide, rfl⟩

theorem knows_mislisting : guarded.KnowsOperator mislisting noon :=
  ⟨(Handler.bearerToken? mislisting).getD [], ⟨"operator", 4102444800, 1717243200, none, none⟩,
    by decide +kernel, by decide +kernel⟩

theorem plainRefusal?_mislisting :
    mislisting.plainRefusal? .licenses = some "Failed to deserialize query string" := by
  decide +kernel

/-- The same by somebody who bears no token. -/
def mislistingUnknown : Request := { mislisting with headers := [] }

/-- The operator is told in plain words, and who is not known is told a problem. -/
theorem tells_problems_mislisting :
    (guarded.Leads mislisting .licenses ∧ Route.licenses.IsGuarded ∧
      guarded.KnowsOperator mislisting unwritable.now ∧
      (World.run (guarded.serve mislisting) unwritable).1 =
        ⟨400, .text "Failed to deserialize query string"⟩) ∧
    (guarded.Leads mislistingUnknown .licenses ∧
      (World.run (guarded.serve mislistingUnknown) unwritable).1.status = 401 ∧
      (World.run (guarded.serve mislistingUnknown) unwritable).1.TellsProblem) := by
  have hleads : guarded.Leads mislistingUnknown .licenses := ⟨nofun, by decide, rfl⟩
  have hunknown : ¬ guarded.KnowsOperator mislistingUnknown unwritable.now := by
    rintro ⟨token, claims, hbearer, -⟩
    cases hbearer
  have hstatus := (hleads.without_operator rfl hunknown).2
  refine ⟨⟨leads_mislisting, .inl rfl, knows_mislisting, ?_⟩, hleads, hstatus, ?_⟩
  · exact (tells_problems leads_mislisting (.inl rfl) unwritable).1 _ knows_mislisting
      plainRefusal?_mislisting
  · refine (tells_problems hleads (.inl rfl) unwritable).2.1 nofun ?_ fun h ↦ absurd h hunknown
    rw [hstatus]
    decide

/-- **Not every error of a guarded route has the body of a problem**: a listing whose query cannot
be read is refused with a text. -/
theorem not_forall_tellsProblem : ¬ ∀ (service : Service) (request : Request) (route : Route),
    service.Leads request route → route.IsGuarded → ∀ world : World,
      400 ≤ (World.run (service.serve request) world).1.status →
        (World.run (service.serve request) world).1.TellsProblem := by
  intro hall
  have hrefused : (World.run (guarded.serve mislisting) unwritable).1 =
      ⟨400, .text "Failed to deserialize query string"⟩ :=
    leads_mislisting.plain plainRefusal?_mislisting knows_mislisting
  have htold := hall guarded mislisting .licenses leads_mislisting (.inl rfl) unwritable
  generalize (World.run (guarded.serve mislisting) unwritable).1 = response at hrefused htold
  subst hrefused
  obtain ⟨body, hbody, -⟩ := htold (by decide)
  cases hbody

end Service

end Http

end Licensing
