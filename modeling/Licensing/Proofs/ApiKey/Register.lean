import Licensing.Proofs.ApiKey.Keeping
import Licensing.Proofs.License.Roll
import Licensing.Proofs.Time.Order

/-!
# The register of API keys

The API-key store over any calls, from its beginning on (`Stores.keepsKeys_after`). Whoever looks a
key up relies on an index that only creations write, while the keys themselves are changed by two
other calls. What carries the lookup is that those two leave identifier and lookup part alone, and
that no key is ever taken out: a disabled key goes on to hold its lookup part, so nobody else can
have it.

What can become of a key is `ApiKey.Ages`, a relation that goes on from call to call.

`keepsKeys_after` rests on the index being kept by every call (`keys_indexed_after`), on what a
creation is answered (`Indexed.create_cases`), and on keys doing nothing but age
(`exists_aged_after`); the first and the last are inductions on the calls. The listing is sorted by
the time of creation and leaves the order of keys that were created at the same time open, as the
store does.
-/

namespace Licensing

/-! ### Who is there -/

namespace ApiKeyStore

variable {store : ApiKeyStore}

/-- An identifier is taken exactly if a stored key has it. -/
theorem Indexed.contains_byId_iff (h : store.Indexed) {id : Uuid} :
    store.byId.contains id = true ↔ ∃ key ∈ store.keys, key.id = id := by
  rw [Table.contains, Option.isSome_iff_exists]
  constructor
  · rintro ⟨key, hstored⟩
    have hid : key.id = id := h.id_eq hstored
    exact ⟨key, h.mem_keys_iff.2 (hid ▸ hstored), hid⟩
  · rintro ⟨key, hmem, rfl⟩
    exact ⟨key, h.mem_keys_iff.1 hmem⟩

/-- A lookup part is taken exactly if a stored key has it, enabled or not. -/
theorem Indexed.contains_byLookup_iff (h : store.Indexed) {lookup : String} :
    store.byLookup.contains lookup = true ↔ ∃ key ∈ store.keys, key.lookup = lookup := by
  rw [Table.contains, Option.isSome_iff_exists]
  constructor
  · rintro ⟨id, hindex⟩
    obtain ⟨key, hstored, hlookup⟩ := h.byLookup_iff.1 hindex
    have hid : key.id = id := h.id_eq hstored
    exact ⟨key, h.mem_keys_iff.2 (hid ▸ hstored), hlookup⟩
  · rintro ⟨key, hmem, hlookup⟩
    exact ⟨key.id, h.byLookup_iff.2 ⟨key, h.mem_keys_iff.1 hmem, hlookup⟩⟩

/-- **A key is refused for a conflict exactly if its lookup part or its identifier is taken**, and
else is added behind all others. -/
theorem Indexed.create_cases (h : store.Indexed) (key : ApiKey) :
    (∃ other ∈ store.keys, other.lookup = key.lookup ∨ other.id = key.id) ∧
        (∃ failure, store.create key = .error failure ∧ failure.kind = .conflict) ∨
      (¬ ∃ other ∈ store.keys, other.lookup = key.lookup ∨ other.id = key.id) ∧
        store.create key = .ok (store.added key) ∧
        (store.added key).keys = store.keys ++ [key] := by
  rw [create]
  split
  · next hlookup =>
    obtain ⟨other, hmem, heq⟩ := h.contains_byLookup_iff.1 hlookup
    exact .inl ⟨⟨other, hmem, .inl heq⟩, _, rfl, rfl⟩
  · next hlookup =>
    split
    · next hid =>
      obtain ⟨other, hmem, heq⟩ := h.contains_byId_iff.1 hid
      exact .inl ⟨⟨other, hmem, .inr heq⟩, _, rfl, rfl⟩
    · next hid =>
      refine .inr ⟨?_, rfl, Table.values_insert_of_get?_eq_none ?_⟩
      · rintro ⟨other, hmem, heq | heq⟩
        · exact hlookup (h.contains_byLookup_iff.2 ⟨other, hmem, heq⟩)
        · exact hid (h.contains_byId_iff.2 ⟨other, hmem, heq⟩)
      · exact Option.not_isSome_iff_eq_none.1 hid

/-- The newest key is listed first. -/
theorem pairwise_list (store : ApiKeyStore) :
    store.list.Pairwise fun a b ↦ b.createdAt ≤ a.createdAt := by
  have hsorted : store.list.Pairwise
      fun a b ↦ (Instant.compare b.createdAt a.createdAt).isLE = true := by
    refine List.pairwise_mergeSort ?_ ?_ store.keys
    · intro a b c hab hbc
      rw [Instant.compare_isLE_iff] at hab hbc ⊢
      exact Instant.le_trans hbc hab
    · intro a b
      rw [Bool.or_eq_true, Instant.compare_isLE_iff, Instant.compare_isLE_iff]
      exact le_total _ _
  exact hsorted.imp Instant.compare_isLE_iff.1

end ApiKeyStore

/-! ### Sequences of calls -/

namespace Stores

variable {stores : Stores}

/-- **One call after another**: the index of keys is kept. -/
theorem keys_indexed_after (h : stores.keys.Indexed) (calls : List (Instant × StoreCall)) :
    (stores.after calls).keys.Indexed := by
  induction calls generalizing stores with
  | nil => exact h
  | cons first calls ih => exact ih (h.step (stores.step_keys first.1 first.2))

/-- **One call after another**: a key that is stored stays stored, and all that it does is age. -/
theorem exists_aged_after (calls : List (Instant × StoreCall)) {id : Uuid} {key : ApiKey}
    (hstored : stores.keys.byId.get? id = some key) :
    ∃ later, (stores.after calls).keys.byId.get? id = some later ∧ key.Ages later := by
  induction calls generalizing stores key with
  | nil => exact ⟨key, hstored, .refl key⟩
  | cons first calls ih =>
    obtain ⟨next, hnext, hages, -⟩ := (stores.step_keys first.1 first.2).exists_aged hstored
    obtain ⟨later, hlater, hages'⟩ := ih hnext
    exact ⟨later, hlater, hages.trans hages'⟩

/-- The keys are kept for good, whatever is called next. -/
structure KeepsKeys (stores : Stores) : Prop where
  /-- Each key is stored under its own identifier, and the index leads from the lookup parts of the
  stored keys, enabled or not, to their identifiers, and from nothing else anywhere. -/
  indexed : stores.keys.Indexed
  nodup_ids : (stores.keys.keys.map (·.id)).Nodup
  nodup_lookups : (stores.keys.keys.map (·.lookup)).Nodup
  /-- A key is refused for a conflict exactly if its lookup part or its identifier is taken. -/
  conflict_iff : ∀ now key,
    (∃ failure, (stores.answer now (.createKey key)).1 = .error failure ∧
      failure.kind = .conflict) ↔
      ∃ other ∈ stores.keys.keys, other.lookup = key.lookup ∨ other.id = key.id
  /-- A key that is not refused is added as it is. -/
  creates : ∀ now key,
    (¬ ∃ other ∈ stores.keys.keys, other.lookup = key.lookup ∨ other.id = key.id) →
      (stores.answer now (.createKey key)).1 = .ok key ∧
        (stores.answer now (.createKey key)).2.keys.keys = stores.keys.keys ++ [key]
  /-- A call that fails leaves everything as it was. -/
  failed : ∀ now call failure, (stores.answer now call).1 = .error failure →
    (stores.answer now call).2 = stores
  /-- No key is taken out by any calls, and all that becomes of it is that it ages. -/
  kept : ∀ calls, ∀ key ∈ stores.keys.keys, ∃ later ∈ (stores.after calls).keys.keys, key.Ages later
  /-- A lookup finds the one key that has the lookup part, if it is enabled. -/
  finds_iff : ∀ now lookup key,
    (stores.answer now (.findEnabledKey lookup)).1 = .ok (some key) ↔
      (key ∈ stores.keys.keys ∧ key.lookup = lookup) ∧ key.isEnabled = true
  /-- A list has every key exactly once, the newest first. -/
  lists : ∀ now, ∃ listed, (stores.answer now .listKeys).1 = .ok listed ∧
    listed.Perm stores.keys.keys ∧ listed.Nodup ∧
    listed.Pairwise fun a b ↦ b.createdAt ≤ a.createdAt

/-- Whatever is called next, an indexed store keeps its keys. -/
theorem keepsKeys (h : stores.keys.Indexed) : stores.KeepsKeys where
  indexed := h
  nodup_ids := (ApiKeyStore.indexed_iff.1 h).nodup_keyOf
  nodup_lookups := (ApiKeyStore.indexed_iff.1 h).nodup_nameOf
  conflict_iff now key := by
    rw [answer_createKey]
    rcases h.create_cases key with ⟨htaken, failure, hrefused, hkind⟩ | ⟨hfree, hadded, -⟩
    · rw [hrefused]
      exact iff_of_true ⟨failure, rfl, hkind⟩ htaken
    · rw [hadded]
      exact iff_of_false nofun hfree
  creates now key hfree := by
    rw [answer_createKey]
    rcases h.create_cases key with ⟨htaken, -⟩ | ⟨-, hadded, hkeys⟩
    · exact absurd htaken hfree
    · rw [hadded]
      exact ⟨rfl, hkeys⟩
  failed _ _ _ := answer_snd_of_error
  kept calls key hmem := by
    obtain ⟨later, hlater, hages⟩ := exists_aged_after calls (h.mem_keys_iff.1 hmem)
    rw [← hages.id_eq] at hlater
    exact ⟨later, (keys_indexed_after h calls).mem_keys_iff.2 hlater, hages⟩
  finds_iff now lookup key := by
    rw [← h.findEnabled_eq_some_iff]
    exact ⟨Except.ok.inj, congrArg Except.ok⟩
  lists now := by
    have hperm : stores.keys.list.Perm stores.keys.keys := List.mergeSort_perm _ _
    have hnodup : stores.keys.keys.Nodup :=
      List.Nodup.of_map (·.id) (ApiKeyStore.indexed_iff.1 h).nodup_keyOf
    exact ⟨stores.keys.list, rfl, hperm, hperm.nodup_iff.2 hnodup, stores.keys.pairwise_list⟩

/-- **Lookup parts stay unique for good.** From an empty API-key store on, after any calls with any
arguments, at any times: the index leads exactly from the lookup parts of the stored keys to the
identifiers of their holders; a creation is refused for a conflict, and changes nothing, exactly if
the lookup part or the identifier is taken, be it by a disabled key; no key is ever taken out,
changed in more than its last use, or enabled again; and a list has every key once, the newest
first. -/
theorem keepsKeys_after (licenses : LicenseStore) (calls : List (Instant × StoreCall)) :
    (after ⟨licenses, .empty⟩ calls).KeepsKeys :=
  keepsKeys (keys_indexed_after ApiKeyStore.indexed_empty calls)

end Stores

end Licensing
