import Licensing.ApiKey.Store
import Licensing.License.Store
import Licensing.Metrics.Counter

/-!
# Programs

What the service does is written as programs: trees of single effects, each continued by what its
answer allows. A call to a store is one effect, so two programs can be interleaved at every call,
and a call can be made to fail, without a second description of what the service does. Programs
are given their meaning in `Licensing.World`.

`Program.bind` grafts one program onto another; `bind_assoc` and its companions are the monad laws.
-/

namespace Licensing

/-! ### Effects -/

/-- The calls to the license store and to the API-key store. -/
inductive StoreCall
  | create (license : License)
  | findById (id : Uuid)
  | findByKey (key : String)
  | list (query : ListQuery)
  | updateStatus (id : Uuid) (status : Status)
  | updateMetadata (id : Uuid) (metadata : Json)
  | update (edit : License)
  | dashboard (now : Instant) (window : Int)
  | findEnabledKey (lookup : String)
  | createKey (key : ApiKey)
  | updateLastUsed (id : Uuid) (time : Instant)
  | listKeys
  | disableKey (id : Uuid)

namespace StoreCall

/-- What a call answers when it succeeds. -/
abbrev Answer : StoreCall → Type
  | create _ => License
  | findById _ => Option License
  | findByKey _ => Option License
  | list _ => Page
  | updateStatus _ _ => Unit
  | updateMetadata _ _ => Unit
  | update _ => License
  | dashboard _ _ => Dashboard
  | findEnabledKey _ => Option ApiKey
  | createKey _ => ApiKey
  | updateLastUsed _ _ => Unit
  | listKeys => List ApiKey
  | disableKey _ => Unit

/-- The name of a call. -/
def name : StoreCall → String
  | create _ => "create"
  | findById _ => "find_by_id"
  | findByKey _ => "find_by_key"
  | list _ => "list"
  | updateStatus _ _ => "update_status"
  | updateMetadata _ _ => "update_metadata"
  | update _ => "update"
  | dashboard _ _ => "dashboard_summary"
  | findEnabledKey _ => "find_enabled_by_prefix"
  | createKey _ => "create_key"
  | updateLastUsed _ _ => "update_last_used"
  | listKeys => "list_keys"
  | disableKey _ => "disable"

/-- The record that a call is about, if it names one. -/
def target? : StoreCall → Option Uuid
  | create license => some license.id
  | findById id => some id
  | updateStatus id _ => some id
  | updateMetadata id _ => some id
  | update edit => some edit.id
  | createKey key => some key.id
  | updateLastUsed id _ => some id
  | disableKey id => some id
  | _ => none

end StoreCall

/-- Work that is done after the answer: expiring a license that a validation found overdue, noting
an acceptance in a license's metadata, and noting the use of an API key. -/
inductive Task
  | expire (id : Uuid)
  | enrich (id : Uuid) (metadata : Json)
  | noteUse (id : Uuid)
  deriving DecidableEq

/-- The name of a task. -/
def Task.name : Task → String
  | expire _ => "lazy_expire"
  | enrich _ _ => "metadata_enrichment"
  | noteUse _ => "api_key_last_used"

/-- The levels of the log. -/
inductive LogLevel
  | info
  | warn
  | error
  deriving DecidableEq

/-- The name of a level. -/
def LogLevel.name : LogLevel → String
  | info => "INFO"
  | warn => "WARN"
  | error => "ERROR"

/-- An entry of the log. -/
structure LogEntry where
  level : LogLevel
  message : String
  fields : List (String × String)
  deriving DecidableEq

/-- A single effect: a call to a store, a reading of the clock, drawing an identifier or a key,
handing a task to the background, adding to a counter, an entry into the log. -/
inductive Effect
  | store (call : StoreCall)
  | clock
  | freshId
  | drawKey (format : CredentialFormat)
  | submit (task : Task)
  | count (counter : Counter) (amount : Nat)
  | log (entry : LogEntry)

/-- What an effect answers. -/
abbrev Effect.Answer : Effect → Type
  | store call => Except Failure call.Answer
  | clock => Instant
  | freshId => Uuid
  | drawKey _ => Option GeneratedKey
  | submit _ => Unit
  | count _ _ => Unit
  | log _ => Unit

/-! ### Programs -/

/-- A program that ends in a value of type `α`. -/
inductive Program (α : Type) : Type
  | done (value : α)
  | act (effect : Effect) (next : effect.Answer → Program α)

namespace Program

variable {α β γ : Type}

/-- Goes on with another program where the first ends. -/
def bind : Program α → (α → Program β) → Program β
  | done value, f => f value
  | act effect next, f => act effect fun answer ↦ (next answer).bind f

instance : Monad Program where
  pure := done
  bind := bind

theorem bind_done (p : Program α) : p.bind done = p := by
  induction p with
  | done value => rfl
  | act effect next ih => exact congrArg (act effect) (funext ih)

theorem bind_assoc (p : Program α) (f : α → Program β) (g : β → Program γ) :
    (p.bind f).bind g = p.bind fun a ↦ (f a).bind g := by
  induction p with
  | done value => rfl
  | act effect next ih => exact congrArg (act effect) (funext ih)

instance : LawfulMonad Program :=
  LawfulMonad.mk' Program bind_done (fun _ _ ↦ rfl) bind_assoc

/-- The program of a single effect. -/
def perform (effect : Effect) : Program effect.Answer := act effect done

end Program

/-- A program that may fail. -/
abbrev Operation (α : Type) := ExceptT Failure Program α

namespace Operation

/-- Calls a store. -/
def call (c : StoreCall) : Operation c.Answer := ExceptT.mk (Program.perform (.store c))

/-- Reads the clock. -/
def clock : Operation Instant := ExceptT.lift (Program.perform .clock)

/-- Draws an identifier. -/
def freshId : Operation Uuid := ExceptT.lift (Program.perform .freshId)

/-- Hands a task to the background. -/
def submit (task : Task) : Operation Unit := ExceptT.lift (Program.perform (.submit task))

/-- Adds to a counter. -/
def count (counter : Counter) (amount : Nat) : Operation Unit :=
  ExceptT.lift (Program.perform (.count counter amount))

end Operation

/-- What a task does. -/
def Task.program : Task → Operation Unit
  | expire id => do
    Operation.call (.updateStatus id .expired)
    Operation.count (.expirations .lazy) 1
  | enrich id metadata => Operation.call (.updateMetadata id metadata)
  | noteUse id => do
    let now ← Operation.clock
    Operation.call (.updateLastUsed id now)

end Licensing
