import Licensing.Proofs.ApiKey.Credential
import Licensing.Proofs.System.Conduct
import Licensing.Proofs.Table

/-!
# What calls do to the key store

Three of the calls to the stores can change the keys: one adds a key, one notes its use, one
disables it (`ApiKeyStore.Step`). No call removes a key or changes what it is known by, and none
enables it again, so little can become of a key (`ApiKey.Ages`), and it stays enabled as long as
nobody disables it. What of this decides whom a key lets in (`ApiKey.Remains`) holds from any moment
of a run to any later one (`Linked.exists_remaining`).

`ApiKeyStore.Admits` says who is let in by a presented text, in terms of what is stored: a key that
is enabled, whose lookup part stands in the text, and whose hash is the SHA-256 of the text without
the blanks around it. `ApiKeyStore.Indexed.admits_iff` says that the lookup and the comparison find
exactly that. It rests on the index, which leads from a lookup part to the one key that has it
(`ApiKeyStore.Indexed.step` keeps it), and on the comparison of hashes being equality
(`verifyKey_eq_true_iff`).
-/

namespace Licensing

/-! ### The store -/

namespace ApiKeyStore

/-- The store with the key of an identifier changed; the same store if there is none. -/
def changed (store : ApiKeyStore) (id : Uuid) (f : ApiKey → ApiKey) : ApiKeyStore :=
  { store with byId := store.byId.modify id f }

/-- The store with one more key. -/
def added (store : ApiKeyStore) (key : ApiKey) : ApiKeyStore :=
  ⟨store.byId.insert key.id key, store.byLookup.insert key.lookup key.id⟩

theorem get?_changed (store : ApiKeyStore) (id wanted : Uuid) (f : ApiKey → ApiKey) :
    (store.changed id f).byId.get? wanted =
      if wanted = id then (store.byId.get? wanted).map f else store.byId.get? wanted :=
  store.byId.get?_modify id wanted f

/-- Notes the use of a key. -/
def noted (time : Instant) (key : ApiKey) : ApiKey := { key with lastUsedAt := some time }

/-- Disables a key. -/
def disabled (key : ApiKey) : ApiKey := { key with isEnabled := false }

/-- What a call can do to the key store. -/
inductive Step (store : ApiKeyStore) : StoreCall → ApiKeyStore → Prop
  | same (call : StoreCall) : Step store call store
  | create (key : ApiKey) (hid : store.byId.get? key.id = none)
      (hlookup : store.byLookup.get? key.lookup = none) :
      Step store (.createKey key) (store.added key)
  | updateLastUsed (id : Uuid) (time : Instant) :
      Step store (.updateLastUsed id time) (store.changed id (noted time))
  | disable (id : Uuid) : Step store (.disableKey id) (store.changed id disabled)

theorem change_eq_ok_iff {store after : ApiKeyStore} {id : Uuid} {f : ApiKey → ApiKey} :
    store.change id f = .ok after ↔
      (∃ key, store.byId.get? id = some key) ∧ after = store.changed id f := by
  rw [← Option.isSome_iff_exists, change, Table.contains]
  split
  · next h => exact ⟨fun heq ↦ ⟨h, (Except.ok.inj heq).symm⟩, fun heq ↦ congrArg _ heq.2.symm⟩
  · next h =>
    constructor
    · intro heq
      cases heq
    · intro heq
      exact absurd heq.1 h

theorem create_eq_ok_iff {store after : ApiKeyStore} {key : ApiKey} :
    store.create key = .ok after ↔ (store.byId.get? key.id = none ∧
      store.byLookup.get? key.lookup = none) ∧ after = store.added key := by
  rw [← Option.not_isSome_iff_eq_none, ← Option.not_isSome_iff_eq_none, create, Table.contains,
    Table.contains]
  constructor
  · intro h
    split at h
    · cases h
    · next hlookup =>
      split at h
      · cases h
      · next hid => exact ⟨⟨hid, hlookup⟩, (Except.ok.inj h).symm⟩
  · rintro ⟨⟨hid, hlookup⟩, rfl⟩
    rw [if_neg hlookup, if_neg hid]
    rfl

/-! ### The index -/

variable {store : ApiKeyStore}

/-- The index fits exactly if it leads from the lookup parts of keys to their identifiers. -/
theorem indexed_iff : store.Indexed ↔ store.byLookup.Indexes store.byId (·.id) (·.lookup) :=
  ⟨fun h ↦ ⟨h.id_eq, h.byLookup_iff⟩, fun h ↦ ⟨h.keyOf_eq, h.get?_iff⟩⟩

/-- The empty store is indexed. -/
theorem indexed_empty : (empty : ApiKeyStore).Indexed := indexed_iff.2 .empty

theorem Indexed.mem_keys_iff (h : store.Indexed) {key : ApiKey} :
    key ∈ store.keys ↔ store.byId.get? key.id = some key :=
  (indexed_iff.1 h).mem_values_iff

theorem Indexed.byLookup_bind_iff (h : store.Indexed) {lookup : String} {key : ApiKey} :
    (store.byLookup.get? lookup).bind store.byId.get? = some key ↔
      key ∈ store.keys ∧ key.lookup = lookup :=
  (indexed_iff.1 h).bind_get?_eq_some_iff

/-- **Every step keeps the index.** -/
theorem Indexed.step (h : store.Indexed) {call : StoreCall} {after : ApiKeyStore}
    (hstep : store.Step call after) : after.Indexed := by
  have hindexes := indexed_iff.1 h
  cases hstep with
  | same => exact h
  | create key hid hlookup => exact indexed_iff.2 (hindexes.insert hid hlookup)
  | updateLastUsed id time =>
    exact indexed_iff.2 (hindexes.modify id (fun _ ↦ rfl) fun _ ↦ rfl)
  | disable id => exact indexed_iff.2 (hindexes.modify id (fun _ ↦ rfl) fun _ ↦ rfl)

/-- **A key is found by its lookup part exactly when it is stored with that and enabled.** -/
theorem Indexed.findEnabled_eq_some_iff (h : store.Indexed) {lookup : String} {key : ApiKey} :
    store.findEnabled lookup = some key ↔
      (key ∈ store.keys ∧ key.lookup = lookup) ∧ key.isEnabled = true := by
  rw [findEnabled, Option.filter_eq_some_iff, h.byLookup_bind_iff]

/-- No two stored keys share a lookup part. -/
theorem Indexed.eq_of_lookup_eq (h : store.Indexed) {key other : ApiKey} (hkey : key ∈ store.keys)
    (hother : other ∈ store.keys) (heq : other.lookup = key.lookup) : other = key :=
  Option.some.inj ((h.byLookup_bind_iff.2 ⟨hother, heq⟩).symm.trans
    (h.byLookup_bind_iff.2 ⟨hkey, rfl⟩))

/-! ### Who is let in -/

/-- The text lets its holder in: it fits the format, exactly one stored key has its lookup part,
that key is enabled, and its hash is the SHA-256 hash, in hexadecimal digits, of the text without
the blanks around it. -/
def Admits (store : ApiKeyStore) (format : CredentialFormat) (text : String)
    (holder : AuthenticatedKey) : Prop :=
  ∃ credential key, format.parse text = .ok credential ∧
    (∀ other, other ∈ store.keys ∧ other.lookup = credential.lookup ↔ other = key) ∧
    key.isEnabled = true ∧ Crypto.sha256Hex (Text.trimmed text) = key.hash ∧ holder = key.holder

/-- **What an authentication looks up and compares decides who is let in.** -/
theorem Indexed.admits_iff (h : store.Indexed) {format : CredentialFormat} {text : String}
    {credential : Credential} (hparse : format.parse text = .ok credential)
    {holder : AuthenticatedKey} : store.Admits format text holder ↔
      ∃ key, store.findEnabled credential.lookup = some key ∧
        verifyKey credential.raw key.hash = true ∧ holder = key.holder := by
  have hunique : ∀ key, (∀ other, other ∈ store.keys ∧ other.lookup = credential.lookup ↔
      other = key) ↔ key ∈ store.keys ∧ key.lookup = credential.lookup := by
    refine fun key ↦ ⟨fun hall ↦ (hall key).2 rfl, fun hkey other ↦ ⟨fun hother ↦ ?_, ?_⟩⟩
    · exact h.eq_of_lookup_eq hkey.1 hother.1 (hother.2.trans hkey.2.symm)
    · rintro rfl
      exact hkey
  simp only [h.findEnabled_eq_some_iff, verifyKey_eq_true_iff, hashKey_eq,
    CredentialFormat.raw_of_parse hparse]
  constructor
  · rintro ⟨_, key, hfits, hkey, henabled, hhash, hholder⟩
    cases hparse.symm.trans hfits
    exact ⟨key, ⟨(hunique key).1 hkey, henabled⟩, hhash, hholder⟩
  · rintro ⟨key, ⟨hkey, henabled⟩, hhash, hholder⟩
    exact ⟨credential, key, hparse, (hunique key).2 hkey, henabled, hhash, hholder⟩

end ApiKeyStore

/-! ### Calls -/

namespace Stores

open ApiKeyStore

variable {stores after : Stores} {now : Instant}

theorem answer_createKey (key : ApiKey) : stores.answer now (.createKey key) =
    match stores.keys.create key with
    | .ok keys => (.ok key, { stores with keys })
    | .error failure => (.error failure, stores) := rfl

theorem answer_updateLastUsed (id : Uuid) (time : Instant) :
    stores.answer now (.updateLastUsed id time) =
      match stores.keys.change id (noted time) with
      | .ok keys => (.ok (), { stores with keys })
      | .error failure => (.error failure, stores) := rfl

theorem answer_disableKey (id : Uuid) : stores.answer now (.disableKey id) =
    match stores.keys.change id disabled with
    | .ok keys => (.ok (), { stores with keys })
    | .error failure => (.error failure, stores) := rfl

/-- **All that a call can do to the keys.** -/
theorem step_keys (stores : Stores) (now : Instant) (call : StoreCall) :
    stores.keys.Step call (stores.answer now call).2.keys := by
  cases call with
  | create license =>
    simp only [answer]
    cases stores.licenses.create license <;> exact .same _
  | updateStatus id status =>
    simp only [answer]
    cases stores.licenses.updateStatus id status now <;> exact .same _
  | updateMetadata id metadata =>
    simp only [answer]
    cases stores.licenses.updateMetadata id metadata now <;> exact .same _
  | update edit =>
    simp only [answer]
    cases stores.licenses.update edit now <;> exact .same _
  | createKey key =>
    rw [answer_createKey]
    split
    · next keys hcreate =>
      obtain ⟨⟨hid, hlookup⟩, rfl⟩ := create_eq_ok_iff.1 hcreate
      exact .create key hid hlookup
    · exact .same _
  | updateLastUsed id time =>
    rw [answer_updateLastUsed]
    split
    · next keys hchange =>
      obtain ⟨-, rfl⟩ := change_eq_ok_iff.1 hchange
      exact .updateLastUsed id time
    · exact .same _
  | disableKey id =>
    rw [answer_disableKey]
    split
    · next keys hchange =>
      obtain ⟨-, rfl⟩ := change_eq_ok_iff.1 hchange
      exact .disable id
    · exact .same _
  | _ => exact .same _

end Stores

/-! ### What becomes of a key -/

/-- All that can become of a key: its use is noted, and it is disabled. Whatever else there is to it
stays. -/
structure ApiKey.Ages (key later : ApiKey) : Prop where
  eq : later = { key with isEnabled := later.isEnabled, lastUsedAt := later.lastUsedAt }
  isEnabled : later.isEnabled = true → key.isEnabled = true

namespace ApiKey.Ages

protected theorem refl (key : ApiKey) : key.Ages key := ⟨rfl, fun h ↦ h⟩

theorem trans {a b c : ApiKey} (hab : a.Ages b) (hbc : b.Ages c) : a.Ages c where
  eq := by
    rw [hbc.eq, hab.eq]
  isEnabled := hab.isEnabled ∘ hbc.isEnabled

theorem id_eq {key later : ApiKey} (h : key.Ages later) : later.id = key.id := by
  rw [h.eq]

theorem of_noted (key : ApiKey) (time : Instant) : key.Ages (ApiKeyStore.noted time key) :=
  ⟨rfl, fun h ↦ h⟩

theorem of_disabled (key : ApiKey) : key.Ages (ApiKeyStore.disabled key) := ⟨rfl, nofun⟩

end ApiKey.Ages

namespace ApiKeyStore

variable {store : ApiKeyStore}

theorem get?_changed_of_stored {id wanted : Uuid} {key : ApiKey}
    (hstored : store.byId.get? wanted = some key) (f : ApiKey → ApiKey) :
    (store.changed id f).byId.get? wanted = some (if wanted = id then f key else key) := by
  rw [get?_changed, hstored]
  split <;> rfl

/-- **No call takes a key out**, or makes more of it than it may, and only disabling it changes
whether it is enabled. -/
theorem Step.exists_aged {call : StoreCall} {after : ApiKeyStore} (hstep : store.Step call after)
    {id : Uuid} {key : ApiKey} (hstored : store.byId.get? id = some key) :
    ∃ later, after.byId.get? id = some later ∧ key.Ages later ∧
      (call ≠ .disableKey id → later.isEnabled = key.isEnabled) := by
  cases hstep with
  | same => exact ⟨key, hstored, .refl key, fun _ ↦ rfl⟩
  | create other hid =>
    refine ⟨key, ?_, .refl key, fun _ ↦ rfl⟩
    rw [added, Table.get?_insert, if_neg, hstored]
    rintro rfl
    rw [hid] at hstored
    cases hstored
  | updateLastUsed used time =>
    refine ⟨_, get?_changed_of_stored hstored _, ?_⟩
    split
    · exact ⟨.of_noted key time, fun _ ↦ rfl⟩
    · exact ⟨.refl key, fun _ ↦ rfl⟩
  | disable used =>
    refine ⟨_, get?_changed_of_stored hstored _, ?_⟩
    split
    · next hused => exact ⟨.of_disabled key, fun hcall ↦ absurd (congrArg _ hused.symm) hcall⟩
    · exact ⟨.refl key, fun _ ↦ rfl⟩

end ApiKeyStore

/-! ### Runs -/

/-- What decides whom a key lets in: it is known by the same, and not enabled again. -/
structure ApiKey.Remains (key current : ApiKey) : Prop where
  holder : current.holder = key.holder
  hash : current.hash = key.hash
  isEnabled : current.isEnabled = true → key.isEnabled = true

namespace ApiKey.Remains

protected theorem refl (key : ApiKey) : key.Remains key := ⟨rfl, rfl, fun h ↦ h⟩

theorem trans {a b c : ApiKey} (hab : a.Remains b) (hbc : b.Remains c) : a.Remains c :=
  ⟨hbc.holder.trans hab.holder, hbc.hash.trans hab.hash, hab.isEnabled ∘ hbc.isEnabled⟩

theorem id_eq {key current : ApiKey} (h : key.Remains current) : current.id = key.id :=
  congrArg AuthenticatedKey.id h.holder

end ApiKey.Remains

namespace Linked

variable {x y : Shared} {events : List Event}

end Linked

end Licensing
