import Licensing.Record
import Licensing.Settings.Basic
import Licensing.Text.Described

/-!
# Settings in words

Diagnostics that show how the service is set up. Of a secret and of the address of the database
they show only that there is one. `Settings.toJson` holds nothing back; it is what the service
works with.
-/

namespace Licensing

open Text.Described (record optional quoted withheld natural seconds flag sealedRecord)

/-- A format of keys in words. -/
def CredentialFormat.describe (format : CredentialFormat) : String :=
  record "CredentialFormat" [
    ("scheme", quoted format.scheme),
    ("prefix_length", natural format.lookupLength),
    ("secret_length", natural format.secretLength)]

namespace Token.Policy

/-- What tokens are checked against, in words. -/
def describe (policy : Policy) : String :=
  record "JwtConfig" [
    ("secret", withheld),
    ("issuer", optional (policy.issuer.map quoted)),
    ("audience", optional (policy.audience.map quoted))]

/-- What checks tokens, in words. -/
def describeVerifier (policy : Policy) : String :=
  record "JwtService" [("config", policy.describe), ("decoding_key", withheld)]

end Token.Policy

namespace Settings

/-- The database settings in words. -/
def Database.describe (database : Database) : String :=
  record "DatabaseConfig" [
    ("url", optional (database.url.map fun _ ↦ withheld)),
    ("max_connections", natural database.maxConnections),
    ("acquire_timeout_secs", natural database.acquireSeconds),
    ("run_migrations", flag database.runMigrations)]

/-- The settings for tokens in words. -/
def Auth.describe (auth : Auth) : String :=
  record "AuthConfig" [
    ("jwt_secret", optional (auth.secret.map fun _ ↦ withheld)),
    ("jwt_issuer", optional (auth.issuer.map quoted)),
    ("jwt_audience", optional (auth.audience.map quoted))]

/-- The parts of the service in words. -/
def describeParts (s : Settings) : List (String × String) := [
  ("state", sealedRecord "AppState"),
  ("licenses", sealedRecord "LicenseService"),
  ("validator", record "LicenseValidator" [
    ("expiration_timeout", seconds s.validation.expireSeconds),
    ("enrichment_timeout", seconds s.validation.enrichSeconds)]),
  ("reconciler", record "ExpirationReconciler" [
    ("startup_page_size", natural s.pageSizes.startup),
    ("periodic_page_size", natural s.pageSizes.scheduled)]),
  ("api_keys", record "ApiKeyService" [
    ("generator", record "ApiKeyGenerator" [("format", s.apiKey.describe)])]),
  ("authenticator", record "ApiKeyAuthenticator" [
    ("format", s.apiKey.describe),
    ("last_used_timeout", seconds s.background.noteUseSeconds)]),
  ("jwt", s.auth.policy.describeVerifier)]

/-- All settings as an object. -/
def toJson (s : Settings) : Json := .ofPairs [
  ("server", .ofPairs [
    ("host", .string s.server.host),
    ("port", .int s.server.port),
    ("shutdown_grace_secs", .int s.server.graceSeconds)]),
  ("logging", .ofPairs [
    ("level", .string s.logging.level),
    ("format", .string s.logging.format.name)]),
  ("storage_backend", .string s.storeKind.name),
  ("database", .ofPairs [
    ("url", .ofOption .string s.database.url),
    ("max_connections", .int s.database.maxConnections),
    ("acquire_timeout_secs", .int s.database.acquireSeconds),
    ("run_migrations", .bool s.database.runMigrations),
    ("debug", .string s.database.describe)]),
  ("auth", .ofPairs [
    ("jwt_secret", .ofOption .string s.auth.secret),
    ("jwt_issuer", .ofOption .string s.auth.issuer),
    ("jwt_audience", .ofOption .string s.auth.audience),
    ("debug", .string s.auth.describe)]),
  ("api_key", .ofPairs [
    ("scheme", .string s.apiKey.scheme),
    ("prefix_length", .int s.apiKey.lookupLength),
    ("secret_length", .int s.apiKey.secretLength)]),
  ("validation", .ofPairs [
    ("enrichment_timeout_secs", .int s.validation.enrichSeconds),
    ("expiration_timeout_secs", .int s.validation.expireSeconds)]),
  ("background", .ofPairs [
    ("max_in_flight", .int s.background.maxInFlight),
    ("last_used_timeout_secs", .int s.background.noteUseSeconds)]),
  ("reconciler", .ofPairs [
    ("run_on_startup", .bool s.sweeping.atStart),
    ("startup_page_size", .int s.sweeping.startupPageSize),
    ("periodic_page_size", .int s.sweeping.scheduledPageSize),
    ("interval_secs", .int s.sweeping.intervalSeconds)]),
  ("metrics", .ofPairs [
    ("enabled", .bool s.metrics.enabled),
    ("path", .string s.metrics.path)])]

end Settings

end Licensing
