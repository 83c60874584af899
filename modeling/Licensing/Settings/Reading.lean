import Licensing.Settings.Basic
import Licensing.Settings.Variables

/-!
# Reading settings

A tree of settings is read section by section. A section is a table of which any field may be
missing, or a list of the first few fields in their order; fields that are not known are passed
over. There are two manners of reading single values (`Manner`): an exact one takes only values of
the right type, a lenient one converts between truth values, numbers and texts, as values from the
environment need it.
-/

namespace Licensing.Settings

/-! ### Single values -/

/-- How single values are read: a number below a bound, a truth value, a text, and a word in lower
case. -/
structure Manner where
  natural? : Nat → Json → Option Nat
  flag? : Json → Option Bool
  text? : Json → Option String
  word? : Json → Option String

namespace Manner

/-- Takes only values of the right type. -/
def exact : Manner where
  natural? bound
    | .int n => if 0 ≤ n && n < bound then some n.toNat else none
    | _ => none
  flag?
    | .bool b => some b
    | _ => none
  text? := Json.string?
  word?
    | .string text => some text
    | .object [(name, .null)] => some name
    | _ => none

/-- Words that stand for true. -/
def yesWords : List String := ["true", "on", "yes"]

/-- Words that stand for false. -/
def noWords : List String := ["false", "off", "no"]

/-- A whole number past 63 bits counts as the double nearest to it. -/
def narrowed : Json → Json
  | .int n => if twoTo 63 ≤ n then .double (UInt64.ofNat (Decimal.ofDecimal n.toNat 0)) else .int n
  | value => value

/-- A number of 64 bits: of words for truth values, true is one and false is zero; numbers are
rounded. -/
def lenientNatural? (value : Json) : Option Nat :=
  match narrowed value with
  | .int n => if 0 ≤ n then some n.toNat else none
  | .double bits => some (Decimal.Binary.toNat bits (twoTo 64))
  | .bool b => some (if b then 1 else 0)
  | .string text =>
    if yesWords.contains (lowerCase text) then some 1
    else if noWords.contains (lowerCase text) then some 0
    else ((wholeNumber? text.toList).filter fun n ↦ 0 ≤ n && n < (twoTo 64 : Int) &&
      text.toList.head? ≠ some '-').map Int.toNat
  | _ => none

/-- Converts between truth values, numbers and texts. -/
def lenient : Manner where
  natural? bound value := (lenientNatural? value).filter (· < bound)
  flag? value := match narrowed value with
    | .bool b => some b
    | .int n => some (n ≠ 0)
    | .double bits => some (bits.toNat % twoTo 63 ≠ 0)
    | .string text =>
      if ("1" :: yesWords).contains (lowerCase text) then some true
      else if ("0" :: noWords).contains (lowerCase text) then some false
      else none
    | _ => none
  text? value := match narrowed value with
    | .string text => some text
    | .bool b => some (if b then "true" else "false")
    | .int n => some (String.ofList (Text.Decimal.ofInt n))
    | .double bits => some (Decimal.Binary.plainText bits)
    | _ => none
  word?
    | .string text => some (lowerCase text)
    | .object [(name, _)] => some (lowerCase name)
    | _ => none

end Manner

/-! ### Sections -/

/-- A field of a section that is gathered in a value of type `α`. -/
structure Entry (α : Type) where
  name : String
  read : Json → α → Option α

namespace Entry

variable {α β : Type}

/-- A field that is read in a given way. -/
def of (name : String) (read? : Json → Option β) (set : β → α → α) : Entry α :=
  ⟨name, fun value a ↦ (read? value).map (set · a)⟩

/-- A field that may be `null`. -/
def optional (name : String) (read? : Json → Option β) (set : Option β → α → α) : Entry α :=
  ⟨name, fun value a ↦
    if value = .null then some (set none a) else (read? value).map fun b ↦ set (some b) a⟩

end Entry

/-- Reads a section, starting from what holds where nothing is set. -/
def readSection {α : Type} (entries : List (Entry α)) (start : α) : Json → Option α
  | .object fields => entries.foldlM (fun a entry ↦
      match Json.Fields.get? fields entry.name with
      | some value => entry.read value a
      | none => some a) start
  | .array items => (entries.zip items).foldlM (fun a (entry, value) ↦ entry.read value a) start
  | _ => none

/-- A number of 16 bits. -/
def bound16 : Nat := twoTo 16

/-- A number of 32 bits. -/
def bound32 : Nat := twoTo 32

/-- A number of 64 bits. -/
def bound64 : Nat := twoTo 64

section Sections

variable (m : Manner)

/-- The fields of the server section. -/
def serverEntries : List (Entry Server) := [
  .of "host" m.text? fun v s ↦ { s with host := v },
  .of "port" (m.natural? bound16) fun v s ↦ { s with port := v },
  .of "shutdown_grace_secs" (m.natural? bound64) fun v s ↦ { s with graceSeconds := v }]

/-- The fields of the logging section. -/
def loggingEntries : List (Entry Logging) := [
  .of "level" m.text? fun v s ↦ { s with level := v },
  .of "format" (fun v ↦ (m.word? v).bind LogFormat.ofName?) fun v s ↦ { s with format := v }]

/-- The fields of the storage section. -/
def storageEntries : List (Entry Storage) := [
  .optional "backend" (fun v ↦ (m.word? v).bind StoreKind.ofName?) fun v _ ↦ ⟨v⟩]

/-- The fields of the database section. -/
def databaseEntries : List (Entry Database) := [
  .optional "url" m.text? fun v s ↦ { s with url := v },
  .of "max_connections" (m.natural? bound32) fun v s ↦ { s with maxConnections := v },
  .of "acquire_timeout_secs" (m.natural? bound64) fun v s ↦ { s with acquireSeconds := v },
  .of "run_migrations" m.flag? fun v s ↦ { s with runMigrations := v }]

/-- The fields of the section for tokens. -/
def authEntries : List (Entry Auth) := [
  .optional "jwt_secret" m.text? fun v s ↦ { s with secret := v },
  .optional "jwt_issuer" m.text? fun v s ↦ { s with issuer := v },
  .optional "jwt_audience" m.text? fun v s ↦ { s with audience := v }]

/-- The fields of the section for API keys. -/
def apiKeyEntries : List (Entry CredentialFormat) := [
  .of "scheme" m.text? fun v s ↦ { s with scheme := v },
  .of "prefix_length" (m.natural? bound64) fun v s ↦ { s with lookupLength := v },
  .of "secret_length" (m.natural? bound64) fun v s ↦ { s with secretLength := v }]

/-- The fields of the validation section. -/
def validationEntries : List (Entry Validation) := [
  .of "enrichment_timeout_secs" (m.natural? bound64) fun v s ↦ { s with enrichSeconds := v },
  .of "expiration_timeout_secs" (m.natural? bound64) fun v s ↦ { s with expireSeconds := v }]

/-- The fields of the section for background tasks. -/
def backgroundEntries : List (Entry Background) := [
  .of "max_in_flight" (m.natural? bound64) fun v s ↦ { s with maxInFlight := v },
  .of "last_used_timeout_secs" (m.natural? bound64) fun v s ↦ { s with noteUseSeconds := v }]

/-- The fields of the section for sweeps. -/
def sweepingEntries : List (Entry Sweeping) := [
  .of "run_on_startup" m.flag? fun v s ↦ { s with atStart := v },
  .of "startup_page_size" (m.natural? bound32) fun v s ↦ { s with startupPageSize := v },
  .of "periodic_page_size" (m.natural? bound32) fun v s ↦ { s with scheduledPageSize := v },
  .of "interval_secs" (m.natural? bound64) fun v s ↦ { s with intervalSeconds := v }]

/-- The fields of the section for metrics. -/
def metricsEntries : List (Entry MetricsPage) := [
  .of "enabled" m.flag? fun v s ↦ { s with enabled := v },
  .of "path" m.text? fun v s ↦ { s with path := v }]

/-- The sections. -/
def sections : List (Entry Settings) := [
  .of "server" (readSection (serverEntries m) {}) fun v s ↦ { s with server := v },
  .of "logging" (readSection (loggingEntries m) {}) fun v s ↦ { s with logging := v },
  .of "storage" (readSection (storageEntries m) {}) fun v s ↦ { s with storage := v },
  .of "database" (readSection (databaseEntries m) {}) fun v s ↦ { s with database := v },
  .of "auth" (readSection (authEntries m) {}) fun v s ↦ { s with auth := v },
  .of "api_key" (readSection (apiKeyEntries m) {}) fun v s ↦ { s with apiKey := v },
  .of "validation" (readSection (validationEntries m) {}) fun v s ↦ { s with validation := v },
  .of "background" (readSection (backgroundEntries m) {}) fun v s ↦ { s with background := v },
  .of "reconciler" (readSection (sweepingEntries m) {}) fun v s ↦ { s with sweeping := v },
  .of "metrics" (readSection (metricsEntries m) {}) fun v s ↦ { s with metrics := v }]

end Sections

/-- The settings that a tree holds. -/
def ofTree? (m : Manner) (tree : Json) : Option Settings := readSection (sections m) {} tree

/-! ### Layers -/

/-- The variable that holds the address of the database, above all other layers. -/
def databaseVariable : String := "DATABASE_URL"

/-- The path of the address of the database. -/
def databasePath : Path := [.field "database", .field "url"]

/-- The layer of a file; none if it holds no table. -/
def Layer.ofFile? (text : String) : Option Layer :=
  (Json.ofText? text).bind fun value ↦ value.fields?.map Layer.ofTable

/-- The files of settings, the later above the earlier. -/
def files : List String := ["config/default.json", "config/local.json"]

/-- All layers, from the lowest to the highest: the files that are there, the environment, and the
address of the database. -/
def layers? (contents : List String) (environment : Environment) : Option (List Layer) := do
  let ofFiles ← contents.mapM Layer.ofFile?
  let address := (environment.lookup databaseVariable).map fun url ↦ (databasePath, Json.string url)
  return ofFiles ++ [Layer.ofEnvironment environment, address.toList]

/-- The settings of the given contents of files, lowest first, and variables. -/
def load? (contents : List String) (environment : Environment) : Option Settings :=
  (layers? contents environment).bind fun layers ↦
    ofTree? .lenient (layers.foldl (fun tree layer ↦ layer.onto tree) (.object []))

end Licensing.Settings
