import Licensing.Json.Basic

/-!
# Requests and responses

A request as it is served: the path and the query are still encoded, the names of headers are in
lower case, the headers stand in the order in which they were sent, and the body is bytes.
-/

namespace Licensing.Http

/-- The methods of requests. -/
inductive Method
  | get
  | head
  | post
  | put
  | patch
  | delete
  | other (name : String)
  deriving DecidableEq

namespace Method

/-- The methods that have a name of their own here. -/
def known : List Method := [get, head, post, put, patch, delete]

/-- The name of a method. -/
def name : Method → String
  | get => "GET"
  | head => "HEAD"
  | post => "POST"
  | put => "PUT"
  | patch => "PATCH"
  | delete => "DELETE"
  | other name => name

/-- The method of a name. -/
def ofName (text : String) : Method := (known.find? (·.name == text)).getD (other text)

theorem name_ofName (text : String) : (ofName text).name = text := by
  unfold ofName
  cases h : known.find? (·.name == text) with
  | none => rfl
  | some method => simpa using List.find?_some h

end Method

/-- A request. -/
structure Request where
  method : Method := .get
  path : String
  query : String := ""
  headers : List (String × String) := []
  body : List UInt8 := []

namespace Request

/-- The target of a request, cut at its first question mark. -/
def withTarget (request : Request) (target : String) : Request :=
  let path := target.toList.takeWhile (· ≠ '?')
  { request with
    path := String.ofList path
    query := String.ofList (target.toList.drop (path.length + 1)) }

/-- The value of the first header of a name. -/
def header? (request : Request) (name : String) : Option String := request.headers.lookup name

/-- The headers with those of one name together, in the order in which the names first occur. -/
def groupedHeaders (request : Request) : List (String × String) :=
  (request.headers.map (·.1)).eraseDups.flatMap fun name ↦ request.headers.filter (·.1 = name)

end Request

/-- The value of a header as text, if it consists of visible ASCII, spaces and tabs. -/
def readable? (value : String) : Option String :=
  if value.toList.all fun c ↦ c = '\t' || (0x20 ≤ c.toNat && c.toNat < 0x7F) then some value
  else none

/-- What a response carries. -/
inductive Content
  | none
  | json (value : Json)
  | text (text : String)
  deriving DecidableEq

/-- A response. -/
structure Response where
  status : Nat
  content : Content := .none
  deriving DecidableEq

/-- A response that carries a value. -/
def Response.json (status : Nat) (value : Json) : Response := ⟨status, .json value⟩

/-- The response as it goes out: to `HEAD` without what it carries. -/
def Response.to (response : Response) (method : Method) : Response :=
  if method = .head then { response with content := .none } else response

end Licensing.Http
