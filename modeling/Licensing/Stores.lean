import Licensing.Program

/-!
# The stores behind the calls

The two stores and what each call answers (`Stores.answer`), and the ways in which a call can go
wrong: outages make calls fail or never answer, and a database whose pool is closed refuses every
call.
-/

namespace Licensing

/-- The two stores. -/
structure Stores where
  licenses : LicenseStore
  keys : ApiKeyStore
  deriving Inhabited

namespace Stores

/-- Stores without records. -/
def empty : Stores := ⟨.empty, .empty⟩

private def put {α : Type} (stores : Stores) (result : Except Failure LicenseStore)
    (answer : LicenseStore → Except Failure α) : Except Failure α × Stores :=
  match result with
  | .ok licenses => (answer licenses, { stores with licenses })
  | .error failure => (.error failure, stores)

private def putKeys {α : Type} (stores : Stores) (result : Except Failure ApiKeyStore)
    (answer : α) : Except Failure α × Stores :=
  match result with
  | .ok keys => (.ok answer, { stores with keys })
  | .error failure => (.error failure, stores)

/-- The answer to a call at a time, and the stores after it. A failed call changes nothing. -/
def answer (stores : Stores) (now : Instant) : (call : StoreCall) →
    Except Failure call.Answer × Stores
  | .create license => stores.put (stores.licenses.create license) fun _ ↦ .ok license
  | .findById id => (.ok (stores.licenses.findById id), stores)
  | .findByKey key => (.ok (stores.licenses.findByKey key), stores)
  | .list query => (.ok (stores.licenses.list query), stores)
  | .updateStatus id status =>
    stores.put (stores.licenses.updateStatus id status now) fun _ ↦ .ok ()
  | .updateMetadata id metadata =>
    stores.put (stores.licenses.updateMetadata id metadata now) fun _ ↦ .ok ()
  | .update edit => stores.put (stores.licenses.update edit now) fun licenses ↦
    match licenses.findById edit.id with
    | some license => .ok license
    | none => .error (.licenseNotFound edit.id)
  | .dashboard time window => (.ok (stores.licenses.dashboard time window), stores)
  | .findEnabledKey lookup => (.ok (stores.keys.findEnabled lookup), stores)
  | .createKey key => stores.putKeys (stores.keys.create key) key
  | .updateLastUsed id time => stores.putKeys (stores.keys.updateLastUsed id time) ()
  | .listKeys => (.ok stores.keys.list, stores)
  | .disableKey id => stores.putKeys (stores.keys.disable id) ()

end Stores

/-- What stands behind the stores: memory, or a database whose pool is closed. -/
inductive Backend
  | memory
  | closedPool
  deriving DecidableEq

/-- What a call attempts, in the words of the failure it gets from a closed pool. -/
def StoreCall.attempt : StoreCall → String
  | create _ => "Failed to create license"
  | findById _ => "Failed to get license"
  | findByKey _ => "Failed to get license by key"
  | list _ => "Failed to count licenses"
  | updateStatus _ _ => "Failed to update license status"
  | updateMetadata _ _ => "Failed to update license metadata"
  | update _ => "Failed to update license"
  | dashboard _ _ => "Failed to aggregate licenses"
  | findEnabledKey _ => "Failed to get API key by prefix"
  | createKey _ => "Failed to create API key"
  | updateLastUsed _ _ => "Failed to update API key last used"
  | listKeys => "Failed to list API keys"
  | disableKey _ => "Failed to disable API key"

/-- Calls of a name, perhaps about one record only, that fail or never answer: the next few, or
all. -/
structure Outage where
  on : String
  target : Option Uuid
  left : Option Nat
  failure : Option Failure
  deriving DecidableEq

/-- Whether the outage affects a call. -/
def Outage.affects (outage : Outage) (call : StoreCall) : Bool :=
  outage.on = call.name && outage.left ≠ some 0 &&
    outage.target.all fun id ↦ call.target? = some id

/-- The outage after one more affected call. -/
def Outage.spent (outage : Outage) : Outage := { outage with left := outage.left.map (· - 1) }

end Licensing
