import Licensing.ApiKey.Generator
import Licensing.Failure
import Licensing.Table
import Licensing.Time.Instant

/-!
# The API-key store

Keys under their identifiers, and an index from lookup parts to identifiers. A key is never
removed and never enabled again: revoking one disables it, and its lookup part stays taken.
-/

namespace Licensing

/-- What is stored of an API key. -/
structure ApiKey where
  id : Uuid
  hash : String
  lookup : String
  description : String
  productId : Option Uuid
  isEnabled : Bool
  createdAt : Instant
  lastUsedAt : Option Instant
  deriving DecidableEq, Inhabited

/-- What an accepted key tells of its holder. -/
structure AuthenticatedKey where
  id : Uuid
  lookup : String
  productId : Option Uuid
  deriving DecidableEq

/-- The holder of a key. -/
def ApiKey.holder (key : ApiKey) : AuthenticatedKey := ⟨key.id, key.lookup, key.productId⟩

/-- The API-key store. -/
structure ApiKeyStore where
  byId : Table Uuid ApiKey
  byLookup : Table String Uuid
  deriving Inhabited

namespace ApiKeyStore

/-- The store without keys. -/
def empty : ApiKeyStore := ⟨.empty, .empty⟩

/-- All keys. -/
def keys (store : ApiKeyStore) : List ApiKey := store.byId.values

/-- The index fits the keys: each is stored under its identifier, and the index leads from a
lookup part to the key that has it and from no other text anywhere. -/
structure Indexed (store : ApiKeyStore) : Prop where
  id_eq : ∀ {id key}, store.byId.get? id = some key → key.id = id
  byLookup_iff : ∀ {lookup id}, store.byLookup.get? lookup = some id ↔
    ∃ key, store.byId.get? id = some key ∧ key.lookup = lookup

/-- Adds a key whose lookup part and identifier are new. -/
def create (store : ApiKeyStore) (key : ApiKey) : Except Failure ApiKeyStore :=
  if store.byLookup.contains key.lookup then .error (.apiKeyPrefixTaken key.lookup)
  else if store.byId.contains key.id then .error (.apiKeyIdTaken key.id)
  else .ok ⟨store.byId.insert key.id key, store.byLookup.insert key.lookup key.id⟩

/-- The key of a lookup part, if it is enabled. -/
def findEnabled (store : ApiKeyStore) (lookup : String) : Option ApiKey :=
  ((store.byLookup.get? lookup).bind store.byId.get?).filter (·.isEnabled)

/-- Changes the key of an identifier, if there is one. -/
def change (store : ApiKeyStore) (id : Uuid) (f : ApiKey → ApiKey) : Except Failure ApiKeyStore :=
  if store.byId.contains id then .ok { store with byId := store.byId.modify id f }
  else .error (.apiKeyNotFound id)

/-- Notes when a key was last used. -/
def updateLastUsed (store : ApiKeyStore) (id : Uuid) (time : Instant) :
    Except Failure ApiKeyStore :=
  store.change id fun key ↦ { key with lastUsedAt := some time }

/-- Disables a key. -/
def disable (store : ApiKeyStore) (id : Uuid) : Except Failure ApiKeyStore :=
  store.change id fun key ↦ { key with isEnabled := false }

/-- All keys, the newest first. -/
def list (store : ApiKeyStore) : List ApiKey :=
  store.keys.mergeSort fun a b ↦ (Instant.compare b.createdAt a.createdAt).isLE

end ApiKeyStore

end Licensing
