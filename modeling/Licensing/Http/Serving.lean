import Licensing.Http.Endpoint

/-!
# Serving

A request is logged, answered and counted (`Service.serve`). It is logged and counted under the
template of its route, so that no identifier gets into the log, or under its path if it leads
nowhere. What a header holds that gives access is not logged. Where there is a page of the metrics,
requests to it and requests that lead nowhere are neither logged nor counted.

A request whose token is checked before the first minute of the clock is over gets no response
(`Service.breaksOff`).
-/

namespace Licensing.Http

namespace Request

/-- Whether a header is logged. -/
def isLogged (name : String) : Bool :=
  ["content-type", "content-length", "user-agent", "x-request-id", "x-forwarded-for",
    "authorization", "x-api-key"].contains name

/-- Whether a header gives access. -/
def isSecret (name : String) : Bool := ["authorization", "x-api-key"].contains name

/-- What the log shows of a header. -/
def headerText (header : String × String) : String :=
  let value := if isSecret header.1 then "[REDACTED]" else (readable? header.2).getD "[invalid]"
  header.1 ++ "=" ++ value

/-- What the log shows of all headers. -/
def headersText (request : Request) : String :=
  ", ".intercalate ((request.groupedHeaders.filter (isLogged ·.1)).map headerText)

/-- The path under which a request is logged and counted. -/
def label (request : Request) : String :=
  ((Route.ofPath? request.path).map Route.template).getD request.path

end Request

/-- The log entry for a request. -/
def arrived (request : Request) (id : String) : LogEntry :=
  ⟨.info, "Incoming request",
    [("method", request.method.name), ("path", request.label), ("request_id", id),
      ("headers", request.headersText)]⟩

namespace Service

/-- The identifier of a request: the one it brings, if it can be read, else a new one. -/
def requestId (request : Request) : Program String := do
  match (request.header? "x-request-id").bind readable? with
  | some text => return text
  | none =>
    let id ← Program.perform .freshId
    return id.toText

/-- Answers a request: with status 404 if its path leads nowhere, with 405 if the route has not the
method. `HEAD` is answered as `GET`. -/
def respond (service : Service) (request : Request) : Program Response := do
  let method := if request.method = .head then .get else request.method
  match Route.ofPath? request.path with
  | none => return ⟨404, .none⟩
  | some route =>
    match route.endpoint? service request method with
    | none => return ⟨405, .none⟩
    | some handler =>
      match ← handler.run with
      | .ok response => return response
      | .error response => return response

/-- The page of the metrics: what is set when the service starts. -/
def metricsPageText : String :=
  "# TYPE license_service_info gauge\nlicense_service_info\x7bversion=\"" ++ version ++
    "\"\x7d 1\n\n"

/-- Counts a request. -/
def countAll : List Counter → Program Unit
  | [] => return ()
  | counter :: rest => do
    Program.perform (.count counter 1)
    countAll rest

/-- The response that is given without being observed: to a request for the page of the metrics,
and, where there is such a page, to one whose path leads nowhere. -/
def unobserved? (service : Service) (request : Request) : Option Response :=
  match service.metricsPage with
  | none => none
  | some path =>
    if path = request.path then
      let found := request.method = .get || request.method = .head
      some (if found then ⟨200, .text metricsPageText⟩ else ⟨405, .none⟩)
    else if (Route.ofPath? request.path).isNone then some ⟨404, .none⟩
    else none

/-- Whether a request is left without a response at a reading of the clock, since the check of its
token breaks off. With `respond` it counts as refused: it gets no further than the check. -/
def breaksOff (service : Service) (request : Request) (now : Instant) : Bool :=
  let method := if request.method = .head then .get else request.method
  (service.unobserved? request).isNone && (Route.ofPath? request.path).any (fun route ↦
    route.forOperators && (route.endpoint? service request method).isSome) &&
      Handler.breaksOff service request now

/-- Serves a request. -/
def serve (service : Service) (request : Request) : Program Response := do
  match service.unobserved? request with
  | some response => return response.to request.method
  | none =>
    let id ← requestId request
    Program.perform (.log (arrived request id))
    let response ← respond service request
    countAll (Counter.ofRequest
      (.ofRequest request.method.name request.label response.status))
    return response.to request.method

end Service

end Licensing.Http
