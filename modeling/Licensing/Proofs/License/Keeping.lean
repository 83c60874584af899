import Licensing.Proofs.Table
import Licensing.Stores

/-!
# What calls do to the license store

Four of the calls to the stores can change the licenses: one adds a license, the others change a
single one in place (`LicenseStore.changed`). `LicenseStore.Step` lists what can happen and
`Stores.step_answer` says that nothing else does, so a property of all calls is a case analysis of
`Step`. The first such property is that every call keeps the index (`Stores.indexed_answer`).

With the index, a license is found by its key exactly when it is stored and has that key
(`LicenseStore.Indexed.findByKey_eq_some_iff`).
-/

namespace Licensing

theorem License.isExpiredAt_mono {license : License} {now later : Instant} (hle : now ≤ later)
    (h : license.isExpiredAt now = true) : license.isExpiredAt later = true := by
  obtain ⟨limit, hlimit, hpast⟩ := (license.isExpiredAt_eq_true_iff now).1 h
  exact (license.isExpiredAt_eq_true_iff later).2 ⟨limit, hlimit, Int.lt_of_lt_of_le hpast hle⟩

theorem License.isExpiredAt_congr {a b : License} (h : a.expiresAt = b.expiresAt) (now : Instant) :
    a.isExpiredAt now = b.isExpiredAt now := by
  rw [isExpiredAt, isExpiredAt, h]

namespace LicenseStore

/-- The store with the license of an identifier changed; the same store if there is none. -/
def changed (store : LicenseStore) (id : Uuid) (f : License → License) : LicenseStore :=
  { store with byId := store.byId.modify id f }

/-- The store with one more license. -/
def added (store : LicenseStore) (license : License) : LicenseStore :=
  ⟨store.byId.insert license.id license, store.byKey.insert license.key license.id⟩

theorem changed_of_not_contains {store : LicenseStore} {id : Uuid}
    (h : store.byId.contains id = false) (f : License → License) : store.changed id f = store := by
  rw [changed, Table.modify_of_contains_eq_false h]

theorem get?_changed (store : LicenseStore) (id wanted : Uuid) (f : License → License) :
    (store.changed id f).byId.get? wanted =
      if wanted = id then (store.byId.get? wanted).map f else store.byId.get? wanted :=
  store.byId.get?_modify id wanted f

/-- A license that is stored is found changed. -/
theorem findById_changed {store : LicenseStore} {id : Uuid} {license : License}
    (h : store.byId.get? id = some license) (f : License → License) :
    (store.changed id f).findById id = some (f license) := by
  rw [findById, get?_changed, if_pos rfl, h]
  rfl

/-- A relation to what is stored elsewhere is kept by a change that keeps it for the one license. -/
theorem rel_changed {rel : License → License → Prop} {first store : LicenseStore}
    (h : ∀ id, Option.Rel rel (first.byId.get? id) (store.byId.get? id)) (id : Uuid)
    {f : License → License}
    (hf : ∀ origin license, first.byId.get? id = some origin → rel origin license →
      rel origin (f license)) (wanted : Uuid) :
    Option.Rel rel (first.byId.get? wanted) ((store.changed id f).byId.get? wanted) := by
  rw [get?_changed]
  split
  · next heq =>
    subst heq
    have hwanted := h wanted
    generalize first.byId.get? wanted = origin? at hwanted hf ⊢
    generalize store.byId.get? wanted = license? at hwanted ⊢
    rcases hwanted with hlicense | -
    · exact .some (hf _ _ rfl hlicense)
    · exact .none
  · exact h wanted

/-! ### The index -/

variable {store : LicenseStore}

/-- The index fits exactly if it leads from the keys of licenses to their identifiers. -/
theorem indexed_iff : store.Indexed ↔ store.byKey.Indexes store.byId (·.id) (·.key) :=
  ⟨fun h ↦ ⟨h.id_eq, h.byKey_iff⟩, fun h ↦ ⟨h.keyOf_eq, h.get?_iff⟩⟩

/-- The empty store is indexed. -/
theorem indexed_empty : (empty : LicenseStore).Indexed := indexed_iff.2 .empty

/-- Changes that keep identifier and key keep the index. -/
theorem Indexed.changed (h : store.Indexed) (id : Uuid) {f : License → License}
    (hid : ∀ license, (f license).id = license.id)
    (hkey : ∀ license, (f license).key = license.key) : (store.changed id f).Indexed :=
  indexed_iff.2 ((indexed_iff.1 h).modify id hid hkey)

/-- A license with a new identifier and a new key keeps the index. -/
theorem Indexed.added (h : store.Indexed) {license : License}
    (hid : store.byId.get? license.id = none) (hkey : store.byKey.get? license.key = none) :
    (store.added license).Indexed :=
  indexed_iff.2 ((indexed_iff.1 h).insert hid hkey)

/-- Whoever is stored is stored under its own identifier. -/
theorem Indexed.mem_licenses_iff (h : store.Indexed) {license : License} :
    license ∈ store.licenses ↔ store.byId.get? license.id = some license :=
  (indexed_iff.1 h).mem_values_iff

/-- **A license is found by its key exactly when it is stored and has that key.** -/
theorem Indexed.findByKey_eq_some_iff (h : store.Indexed) {key : String} {license : License} :
    store.findByKey key = some license ↔ license ∈ store.licenses ∧ license.key = key :=
  (indexed_iff.1 h).bind_get?_eq_some_iff

/-- The store with a single license. -/
def single (license : License) : LicenseStore := empty.added license

theorem licenses_single (license : License) : (single license).licenses = [license] := rfl

theorem indexed_single (license : License) : (single license).Indexed := indexed_empty.added rfl rfl

/-- No two stored licenses share an identifier. -/
theorem Indexed.nodup_ids (h : store.Indexed) : (store.licenses.map (·.id)).Nodup :=
  (indexed_iff.1 h).nodup_keyOf

end LicenseStore

/-! ### Calls -/

/-- What a call can do to the license store at a time. -/
inductive LicenseStore.Step (now : Instant) (store : LicenseStore) :
    StoreCall → LicenseStore → Prop
  | same (call : StoreCall) : Step now store call store
  | create (license : License) (hid : store.byId.get? license.id = none)
      (hkey : store.byKey.get? license.key = none) :
      Step now store (.create license) (store.added license)
  | updateStatus (id : Uuid) (status : Status) :
      Step now store (.updateStatus id status) (store.changed id (·.withStatus status now))
  | updateMetadata (id : Uuid) (metadata : Json) :
      Step now store (.updateMetadata id metadata)
        (store.changed id (·.withMetadata (some metadata) now))
  | update (edit : License) :
      Step now store (.update edit) (store.changed edit.id (edited edit now))

namespace Stores

variable (stores : Stores) (now : Instant)

/-- A call that changes one license, or fails where there is none. -/
theorem answer_of_change (call : StoreCall) (id : Uuid) (f : License → License)
    (reply : LicenseStore → Except Failure call.Answer)
    (h : stores.answer now call = match stores.licenses.change id f with
      | .ok licenses => (reply licenses, { stores with licenses })
      | .error failure => (.error failure, stores)) :
    stores.answer now call =
      (if stores.licenses.byId.contains id then reply (stores.licenses.changed id f)
        else .error (.licenseNotFound id),
        { stores with licenses := stores.licenses.changed id f }) := by
  rw [h, LicenseStore.change]
  cases hstored : stores.licenses.byId.contains id with
  | true => rfl
  | false =>
    rw [LicenseStore.changed_of_not_contains hstored]
    rfl

theorem answer_updateStatus (id : Uuid) (status : Status) :
    stores.answer now (.updateStatus id status) =
      (if stores.licenses.byId.contains id then .ok () else .error (.licenseNotFound id),
        { stores with licenses := stores.licenses.changed id (·.withStatus status now) }) :=
  stores.answer_of_change now (.updateStatus id status) id _ (fun _ ↦ .ok ()) rfl

theorem answer_updateMetadata (id : Uuid) (metadata : Json) :
    stores.answer now (.updateMetadata id metadata) =
      (if stores.licenses.byId.contains id then .ok () else .error (.licenseNotFound id),
        { stores with
          licenses := stores.licenses.changed id (·.withMetadata (some metadata) now) }) :=
  stores.answer_of_change now (.updateMetadata id metadata) id _ (fun _ ↦ .ok ()) rfl

theorem licenses_answer_update (edit : License) :
    (stores.answer now (.update edit)).2.licenses =
      stores.licenses.changed edit.id (LicenseStore.edited edit now) := by
  rw [stores.answer_of_change now (.update edit) edit.id _ _ rfl]

/-- A license with a new identifier and a new key is added. -/
theorem answer_create_of_new {license : License}
    (hid : stores.licenses.byId.get? license.id = none)
    (hkey : stores.licenses.byKey.get? license.key = none) :
    stores.answer now (.create license) =
      (.ok license, { stores with licenses := stores.licenses.added license }) := by
  have hcreate : stores.licenses.create license = .ok (stores.licenses.added license) := by
    simp [LicenseStore.create, LicenseStore.added, Table.contains, hid, hkey]
  rw [answer, hcreate]
  rfl

theorem licenses_answer_create (license : License) :
    (stores.answer now (.create license)).2.licenses = stores.licenses ∨
      stores.licenses.byId.get? license.id = none ∧
        stores.licenses.byKey.get? license.key = none ∧
        (stores.answer now (.create license)).2.licenses = stores.licenses.added license := by
  simp only [answer, LicenseStore.create]
  split
  · exact Or.inl rfl
  · next hkey =>
    split
    · exact Or.inl rfl
    · next hid =>
      refine Or.inr ⟨?_, ?_, rfl⟩
      · simpa [Table.contains] using hid
      · simpa [Table.contains] using hkey

/-- **All that a call does to the licenses.** -/
theorem step_answer (call : StoreCall) :
    stores.licenses.Step now call (stores.answer now call).2.licenses := by
  cases call with
  | create license =>
    rcases stores.licenses_answer_create now license with heq | ⟨hid, hkey, heq⟩
    · rw [heq]
      exact .same _
    · rw [heq]
      exact .create license hid hkey
  | updateStatus id status =>
    rw [answer_updateStatus]
    exact .updateStatus id status
  | updateMetadata id metadata =>
    rw [answer_updateMetadata]
    exact .updateMetadata id metadata
  | update edit =>
    rw [licenses_answer_update]
    exact .update edit
  | createKey key =>
    simp only [answer]
    cases stores.keys.create key <;> exact .same _
  | updateLastUsed id time =>
    simp only [answer]
    cases stores.keys.updateLastUsed id time <;> exact .same _
  | disableKey id =>
    simp only [answer]
    cases stores.keys.disable id <;> exact .same _
  | _ => exact .same _

/-- **Every call keeps the index.** -/
theorem indexed_answer (h : stores.licenses.Indexed) (call : StoreCall) :
    (stores.answer now call).2.licenses.Indexed := by
  have hstep := stores.step_answer now call
  generalize (stores.answer now call).2.licenses = after at hstep ⊢
  cases hstep with
  | same => exact h
  | create license hid hkey => exact h.added hid hkey
  | updateStatus id status => exact h.changed id (fun _ ↦ rfl) fun _ ↦ rfl
  | updateMetadata id metadata => exact h.changed id (fun _ ↦ rfl) fun _ ↦ rfl
  | update edit => exact h.changed edit.id (fun _ ↦ rfl) fun _ ↦ rfl

end Stores

end Licensing
