import Licensing.License.Basic
import Licensing.Time.Rfc3339

/-!
# Metadata

A license and a request to validate it both carry a JSON value in which a few fields have a
meaning: who and what a license is bound to, what an agent claims to be, what an agent may be
told, and when and from where the license was last used. All other fields are left alone.
-/

namespace Licensing.Metadata

/-- The device a license is bound to, or an agent runs on. -/
def deviceId : String := "device_id"

/-- The user a license is bound to, or an agent acts for. -/
def userId : String := "user_id"

/-- The address an agent claims. -/
def ipAddress : String := "ip_address"

/-- When the license was last accepted. -/
def lastValidatedAt : String := "last_validated_at"

/-- The address from which the license was last accepted. -/
def lastIp : String := "last_ip"

/-- The fields that an agent may be told. -/
def disclosed : List String := ["features", "limits"]

/-- What an agent claims: of each field, the string under it if it is one and is not empty. -/
structure Claims where
  deviceId : Option String
  userId : Option String
  ipAddress : Option String
  deriving DecidableEq, Inhabited

/-- The claims in a value; none in one that is no object. -/
def Claims.ofJson (value : Option Json) : Claims :=
  match value.bind Json.fields? with
  | none => ⟨none, none, none⟩
  | some fields =>
    ⟨fields.nonEmptyString? Metadata.deviceId, fields.nonEmptyString? Metadata.userId,
      fields.nonEmptyString? Metadata.ipAddress⟩

/-- What an agent is told of a license's fields: those disclosed, or nothing if there are none. -/
def disclosure? (fields : Option Json.Fields) : Option Json :=
  let told := disclosed.filterMap fun name ↦ (fields.bind (Json.Fields.get? · name)).map (name, ·)
  if told = [] then none else some (.ofPairs told)

/-- The metadata after an acceptance at `now` from `ip`: all fields there were, with the time and,
if known, the address set anew. What was not an object is replaced by one. -/
def enriched (base : Option Json) (now : Instant) (ip : Option String) : Json :=
  let fields := (base.bind Json.fields?).getD []
  let fields := fields.insert lastValidatedAt (.string (Time.Rfc3339.toTextNanos now))
  match ip with
  | some ip => .object (fields.insert lastIp (.string ip))
  | none => .object fields

end Licensing.Metadata
