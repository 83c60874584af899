import Licensing.Http.Serving
import Licensing.Proofs.System.Turns

/-!
# Serving, step by step

To serve a request is to know its identifier, to log it, to let the endpoint of its route answer,
and to count it (`Service.serve_eq`). Around the endpoint nothing can be disturbed. An endpoint that
begins with a guard goes no further than the guard when that refuses
(`Service.serve_of_refused`).

`Service.Leads` says that a request leads to a route, whatever stands in its headers and its body.

`serve_of_refused` is what guards are proved with, and `run_serve` is what everything else about a
single request is proved with: a statement about serving becomes one about the endpoint of a route,
in the world in which that is reached (`arrival`).
-/

namespace Licensing.Http

/-! ### Where a request leads -/

/-- The method by which a request is answered: `HEAD` is answered as `GET`. -/
def Request.answeredAs (request : Request) : Method :=
  if request.method = .head then .get else request.method

/-- The request leads to a route, not to the page of the metrics, and the route has its method. -/
structure Service.Leads (service : Service) (request : Request) (route : Route) : Prop where
  page : service.metricsPage ≠ some request.path
  path : Route.ofPath? request.path = some route
  method : (route.endpoint? service request request.answeredAs).isSome = true

theorem Response.status_to (response : Response) (method : Method) :
    (response.to method).status = response.status := by
  unfold Response.to
  split <;> rfl

/-! ### Handlers -/

namespace Handler

variable {α β : Type} {guard : Handler α} {refusal : Response} {world : World}

theorem run_bind (guard : Handler α) (f : α → Handler β) :
    (guard >>= f).run = Program.bind guard.run fun
      | .ok a => (f a).run
      | .error refusal => .done (.error refusal) := by
  refine congrArg (Program.bind guard.run) (funext ?_)
  rintro (refusal | a) <;> rfl

/-- What a handler makes of the result of an operation. -/
def ofOutcome : Except Failure α → Handler α
  | .ok value => return value
  | .error failure => fail failure

/-- To perform an operation is to make something of its result, once it is there. -/
theorem run_perform (op : Operation α) :
    (perform op).run = Program.bind op.run fun result ↦ (ofOutcome result).run := by
  refine (Program.bind_assoc _ _ _).trans (congrArg (Program.bind op.run) (funext ?_))
  rintro (failure | value) <;> rfl

/-- **A handler goes no further than a guard that refuses.** -/
theorem bind_of_refused (h : (World.run guard.run world).1 = .error refusal)
    (f : α → Handler β) :
    World.run (guard >>= f).run world = (.error refusal, (World.run guard.run world).2) ∧
      World.turns (guard >>= f).run world = World.turns guard.run world := by
  rw [run_bind]
  constructor
  · refine (World.run_bind _ _ _).trans ?_
    rw [h]
    rfl
  · rw [World.turns_bind, h]
    exact List.append_nil _

end Handler

/-! ### The steps -/

namespace Service

variable {service : Service} {request : Request} {world : World}

/-- The response of an endpoint, whether it answers or refuses. -/
def response : Except Response Response → Response
  | .ok response => response
  | .error response => response

theorem unobserved?_of_leads {route : Route} (h : service.Leads request route) :
    service.unobserved? request = none := by
  unfold unobserved?
  rcases hpage : service.metricsPage with - | path
  · rfl
  · have hother : path ≠ request.path := fun heq ↦ h.page (heq ▸ hpage)
    simp [hother, h.path]

/-- To respond is to let the endpoint answer. -/
theorem respond_eq {route : Route} {handler : Handler Response}
    (hpath : Route.ofPath? request.path = some route)
    (hhandler : route.endpoint? service request request.answeredAs = some handler) :
    respond service request = handler.run.bind fun result ↦ .done (response result) := by
  unfold respond
  unfold Request.answeredAs at hhandler
  simp only [hpath, hhandler]
  refine congrArg (Program.bind handler.run) (funext ?_)
  rintro (refusal | answer) <;> rfl

/-- The identifier is the one that the request brings, or the next one drawn. -/
theorem run_requestId (request : Request) (world : World) : World.run (requestId request) world =
    match (request.header? "x-request-id").bind readable? with
    | some text => (text, world)
    | none => ((World.drawnId (world.idsDrawn + 1)).toText,
        { world with idsDrawn := world.idsDrawn + 1 }) := by
  unfold requestId
  cases (request.header? "x-request-id").bind readable? <;> rfl

theorem harmless_requestId (request : Request) (world : World) :
    ∀ turn ∈ World.turns (requestId request) world, turn.1.Harmless := by
  unfold requestId
  cases (request.header? "x-request-id").bind readable? with
  | some text => exact List.forall_mem_nil _
  | none => exact List.forall_mem_singleton.2 trivial

theorem harmless_countAll (counters : List Counter) (world : World) :
    ∀ turn ∈ World.turns (countAll counters) world, turn.1.Harmless := by
  induction counters generalizing world with
  | nil => exact List.forall_mem_nil _
  | cons counter counters ih => exact List.forall_mem_cons.2 ⟨trivial, ih _⟩

/-- The world in which the endpoint is reached: the request has its identifier and is logged. -/
def arrival (request : Request) (world : World) : World :=
  let known := World.run (requestId request) world
  known.2.logged (arrived request known.1)

/-- Of the world, nothing but the identifiers drawn and the log has changed by then. -/
theorem arrival_eq (request : Request) (world : World) :
    ∃ idsDrawn log, arrival request world = { world with idsDrawn, log } := by
  unfold arrival
  rw [run_requestId]
  split <;> exact ⟨_, _, rfl⟩

/-- The counters that a response adds to. -/
def counters (request : Request) (response : Response) : List Counter :=
  Counter.ofRequest (.ofRequest request.method.name request.label response.status)

/-- What there is to serving a request that is observed. -/
theorem serve_eq (h : service.unobserved? request = none) : service.serve request =
    (requestId request).bind fun id ↦ .act (.log (arrived request id)) fun _ ↦
      (respond service request).bind fun response ↦
        (countAll (counters request response)).bind fun _ ↦
          .done (response.to request.method) := by
  unfold serve
  rw [h]
  rfl

/-- **How serving ends**: with what is responded upon the arrival, and the response is counted. -/
theorem run_serve (h : service.unobserved? request = none) (world : World) :
    World.run (service.serve request) world =
      let answered := World.run (respond service request) (arrival request world)
      (answered.1.to request.method,
        (World.run (countAll (counters request answered.1)) answered.2).2) := by
  rw [serve_eq h]
  refine (World.run_bind _ _ _).trans ?_
  show World.run ((respond service request).bind _) (arrival request world) = _
  refine (World.run_bind _ _ _).trans ?_
  exact World.run_bind _ _ _

/-- Around what is responded, everything is harmless. -/
theorem harmless_serve (h : service.unobserved? request = none)
    (hrespond : ∀ turn ∈ World.turns (respond service request) (arrival request world),
      turn.1.Harmless) :
    ∀ turn ∈ World.turns (service.serve request) world, turn.1.Harmless := by
  rw [serve_eq h, World.turns_bind]
  refine List.forall_mem_append.2 ⟨harmless_requestId request world, ?_⟩
  refine List.forall_mem_cons.2 ⟨trivial, ?_⟩
  show ∀ turn ∈ World.turns ((respond service request).bind _) (arrival request world), _
  rw [World.turns_bind, World.turns_bind]
  refine List.forall_mem_append.2 ⟨hrespond, List.forall_mem_append.2 ⟨?_, ?_⟩⟩
  · exact harmless_countAll _ _
  · exact List.forall_mem_nil _

/-- **A request that a guard refuses** is answered by the refusal, and what the guard does is all
that could disturb anybody. -/
theorem serve_of_refused {α : Type} {route : Route} (hleads : service.Leads request route)
    {guard : Handler α} {f : α → Handler Response}
    (hguard : route.endpoint? service request request.answeredAs = some (guard >>= f))
    {refusal : Response}
    (hrefused : (World.run guard.run (arrival request world)).1 = .error refusal) :
    World.run (service.serve request) world =
        (refusal.to request.method, (World.run (countAll (counters request refusal))
          (World.run guard.run (arrival request world)).2).2) ∧
      ((∀ turn ∈ World.turns guard.run (arrival request world), turn.1.Harmless) →
        ∀ turn ∈ World.turns (service.serve request) world, turn.1.Harmless) := by
  have hobserved := unobserved?_of_leads hleads
  obtain ⟨hrun, hturns⟩ := Handler.bind_of_refused hrefused f
  have hrespond := respond_eq hleads.path hguard
  constructor
  · have hanswered : World.run (respond service request) (arrival request world) =
        (refusal, (World.run guard.run (arrival request world)).2) := by
      rw [hrespond]
      refine (World.run_bind _ _ _).trans ?_
      rw [hrun]
      rfl
    rw [run_serve hobserved, hanswered]
  · intro hharmless
    refine harmless_serve hobserved ?_
    rw [hrespond, World.turns_bind, hturns]
    refine List.forall_mem_append.2 ⟨hharmless, ?_⟩
    exact List.forall_mem_nil _

end Service

end Licensing.Http
