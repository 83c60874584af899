import Licensing.Proofs.License.Keeping
import Licensing.Proofs.Listing.Dashboard

/-!
# The license store as a plain list

Two tables make up the license store, and only the creation of a license writes to both. That they
agree after any calls whatever is the invariant `LicenseStore.Indexed`; what it is good for is that
nobody can tell the store from a plain list of licenses that is searched from its front
(`Stores.KeepsRoll`). What the list answers is said with no table, no index and no sort
(`Roll.Answers`): a look-up is a search, a listing is a page of the one list in which the licenses
that pass stand in strict order, and a dashboard counts.

A table is hashed, and the order of its entries may be another one each time it is walked. So a
store is followed through calls between which its entries are rearranged at will (`Stores.Runs`).
The order does not show, with one exception that the list leaves open as well: where several
licenses are the next to expire at the same time, the dashboard names any of them.

The main result is `Stores.keepsRoll_of_runs`. It rests on three facts, each of which holds in any
order of the entries: the index leads where a search does (`LicenseStore.Indexed.findByKey_eq`), a
call does to the list what it does to the store (`Stores.answer_eq_roll`), and a selection does not
depend on the order it is made in (`ListQuery.select_congr`, `Dashboard.Summarizes.perm`).
-/

namespace Licensing

/-! ### The list -/

namespace Roll

/-- A license is added at the end, if its key and its identifier are new. -/
def create (roll : List License) (license : License) : Except Failure License × List License :=
  if roll.any (·.key = license.key) then (.error .licenseKeyTaken, roll)
  else if roll.any (·.id = license.id) then (.error (.licenseIdTaken license.id), roll)
  else (.ok license, roll ++ [license])

/-- The first license of an identifier is looked for, and changed where it stands. -/
def change {α : Type} (roll : List License) (id : Uuid) (f : License → License)
    (reply : License → α) : Except Failure α × List License :=
  match roll.find? (·.id = id) with
  | some license =>
    (.ok (reply license), roll.map fun other ↦ if other.id = id then f other else other)
  | none => (.error (.licenseNotFound id), roll)

/-- A license with what can be edited taken from another. -/
def edited (edit : License) (now : Instant) (license : License) : License :=
  { license with
    kind := edit.kind
    product := edit.product
    customerName := edit.customerName
    customerEmail := edit.customerEmail
    expiresAt := edit.expiresAt
    metadata := edit.metadata
    updatedAt := now }

/-- The answer to a call and the list after it, where a search settles the answer. -/
def answer? (roll : List License) (now : Instant) :
    (call : StoreCall) → Option (Except Failure call.Answer × List License)
  | .create license => some (create roll license)
  | .findById id => some (.ok (roll.find? (·.id = id)), roll)
  | .findByKey key => some (.ok (roll.find? (·.key = key)), roll)
  | .updateStatus id status =>
    some (change roll id (fun license ↦ { license with status, updatedAt := now }) fun _ ↦ ())
  | .updateMetadata id metadata =>
    some (change roll id
      (fun license ↦ { license with metadata := some metadata, updatedAt := now }) fun _ ↦ ())
  | .update edit => some (change roll edit.id (edited edit now) (edited edit now))
  | _ => none

/-- The page is cut out of the list that has every license that passes once, in strict order. -/
def Lists (roll : List License) (query : ListQuery) (page : Page) : Prop :=
  ∃ listed : List License, (∀ license, license ∈ listed ↔ license ∈ roll ∧ query.Passes license) ∧
    listed.Nodup ∧ listed.Pairwise query.Precedes ∧
    page = ⟨(listed.drop query.offset).take query.limit, listed.length⟩

/-- The answer is one that the list gives to a call. Nothing is said of the calls that are about API
keys. -/
def Answers (roll : List License) (now : Instant) :
    (call : StoreCall) → Except Failure call.Answer → Prop
  | .list query, answer => ∃ page, answer = .ok page ∧ Lists roll query page
  | .dashboard time window, answer => ∃ dashboard, answer = .ok dashboard ∧
      Dashboard.Summarizes time (time.addSeconds window) roll dashboard
  | call, answer => ∀ outcome, answer? roll now call = some outcome → answer = outcome.1

/-- The list after a call. -/
def next (roll : List License) (now : Instant) (call : StoreCall) : List License :=
  ((answer? roll now call).map (·.2)).getD roll

/-- The list after calls, each at its time. -/
def after (roll : List License) (calls : List (Instant × StoreCall)) : List License :=
  calls.foldl (fun roll (now, call) ↦ next roll now call) roll

/-- A license is refused for a conflict exactly if its key or its identifier is taken. -/
theorem create_conflict_iff {roll : List License} {license : License} :
    (∃ failure, (create roll license).1 = .error failure ∧ failure.kind = .conflict) ↔
      ∃ other ∈ roll, other.key = license.key ∨ other.id = license.id := by
  unfold create
  by_cases hkey : roll.any (·.key = license.key) = true
  · obtain ⟨other, hmem, heq⟩ := List.any_eq_true.1 hkey
    rw [if_pos hkey]
    exact iff_of_true ⟨_, rfl, rfl⟩ ⟨other, hmem, .inl (of_decide_eq_true heq)⟩
  · rw [if_neg hkey]
    by_cases hid : roll.any (·.id = license.id) = true
    · obtain ⟨other, hmem, heq⟩ := List.any_eq_true.1 hid
      rw [if_pos hid]
      exact iff_of_true ⟨_, rfl, rfl⟩ ⟨other, hmem, .inr (of_decide_eq_true heq)⟩
    · rw [if_neg hid]
      refine iff_of_false nofun ?_
      rintro ⟨other, hmem, heq | heq⟩
      · exact hkey (List.any_eq_true.2 ⟨other, hmem, decide_eq_true heq⟩)
      · exact hid (List.any_eq_true.2 ⟨other, hmem, decide_eq_true heq⟩)

end Roll

/-! ### Searching -/

namespace LicenseStore.Indexed

variable {store : LicenseStore} {roll : List License}

/-- To look an identifier up is to search for it. -/
theorem findById_eq (h : store.Indexed) (hperm : store.licenses.Perm roll) (id : Uuid) :
    store.findById id = roll.find? (·.id = id) := by
  cases hfound : roll.find? (·.id = id) with
  | some license =>
    have hmem := h.mem_licenses_iff.1 (hperm.mem_iff.2 (List.mem_of_find?_eq_some hfound))
    have hid : license.id = id := by simpa using List.find?_some hfound
    rw [← hid]
    exact hmem
  | none =>
    refine Option.eq_none_iff_forall_ne_some.2 fun license hstored ↦ ?_
    have hid : license.id = id := h.id_eq hstored
    have hmem : license ∈ roll := hperm.mem_iff.1 (h.mem_licenses_iff.2 (hid ▸ hstored))
    simpa [hid] using List.find?_eq_none.1 hfound license hmem

/-- To follow the index is to search for the key. -/
theorem findByKey_eq (h : store.Indexed) (hperm : store.licenses.Perm roll) (key : String) :
    store.findByKey key = roll.find? (·.key = key) := by
  cases hfound : roll.find? (·.key = key) with
  | some license =>
    have hkey : license.key = key := by simpa using List.find?_some hfound
    exact h.findByKey_eq_some_iff.2
      ⟨hperm.mem_iff.2 (List.mem_of_find?_eq_some hfound), hkey⟩
  | none =>
    refine Option.eq_none_iff_forall_ne_some.2 fun license hstored ↦ ?_
    obtain ⟨hmem, hkey⟩ := h.findByKey_eq_some_iff.1 hstored
    simpa [hkey] using List.find?_eq_none.1 hfound license (hperm.mem_iff.1 hmem)

/-- An identifier is taken exactly if a stored license has it. -/
theorem contains_byId (h : store.Indexed) (hperm : store.licenses.Perm roll) (id : Uuid) :
    store.byId.contains id = roll.any (·.id = id) := by
  rw [← List.isSome_find?, ← h.findById_eq hperm]
  rfl

/-- A key is taken exactly if a stored license has it. -/
theorem contains_byKey (h : store.Indexed) (hperm : store.licenses.Perm roll) (key : String) :
    store.byKey.contains key = roll.any (·.key = key) := by
  rw [← List.isSome_find?, ← h.findByKey_eq hperm, Table.contains, findByKey]
  cases hindex : store.byKey.get? key with
  | none => rfl
  | some id =>
    -- The index leads nowhere but to stored licenses.
    obtain ⟨license, hstored, -⟩ := h.byKey_iff.1 hindex
    simp [hstored]

/-- No two stored licenses share a key. -/
theorem nodup_keys (h : store.Indexed) : (store.licenses.map (·.key)).Nodup :=
  (indexed_iff.1 h).nodup_nameOf

/-- Changing the license of an identifier is changing it where it stands in the list. -/
theorem licenses_changed (h : store.Indexed) (id : Uuid) (f : License → License) :
    (store.changed id f).licenses =
      store.licenses.map fun other ↦ if other.id = id then f other else other :=
  Table.values_modify_of_key h.id_eq id f

end LicenseStore.Indexed

theorem LicenseStore.licenses_added {store : LicenseStore} {license : License}
    (hid : store.byId.get? license.id = none) :
    (store.added license).licenses = store.licenses ++ [license] :=
  Table.values_insert_of_get?_eq_none hid

/-! ### Calls -/

namespace Stores

variable {stores : Stores} {roll : List License} {now : Instant}

/-- Both refuse a license that is to be created for the same reason, or both add it. -/
theorem answer_create_eq (h : stores.licenses.Indexed)
    (hperm : stores.licenses.licenses.Perm roll) (license : License) :
    (stores.answer now (.create license)).1 = (Roll.create roll license).1 ∧
      (stores.answer now (.create license)).2.licenses.licenses.Perm
        (Roll.create roll license).2 := by
  simp only [answer, LicenseStore.create, Roll.create, h.contains_byKey hperm]
  split
  · exact ⟨rfl, hperm⟩
  · rw [← h.contains_byId hperm]
    split
    · exact ⟨rfl, hperm⟩
    · next hid =>
      have hfree : stores.licenses.byId.get? license.id = none := by
        simpa [Table.contains] using hid
      have hadded := LicenseStore.licenses_added hfree
      exact ⟨rfl, hadded ▸ hperm.append_right [license]⟩

/-- Both change a license where it stands, or both find none. -/
theorem answer_change_eq (h : stores.licenses.Indexed)
    (hperm : stores.licenses.licenses.Perm roll) (call : StoreCall) {id : Uuid}
    {f : License → License} {reply : LicenseStore → Except Failure call.Answer}
    {reply' : License → call.Answer}
    (hanswer : stores.answer now call = match stores.licenses.change id f with
      | .ok licenses => (reply licenses, { stores with licenses })
      | .error failure => (.error failure, stores))
    (hreply : ∀ license, stores.licenses.findById id = some license →
      reply (stores.licenses.changed id f) = .ok (reply' license)) :
    (stores.answer now call).1 = (Roll.change roll id f reply').1 ∧
      (stores.answer now call).2.licenses.licenses.Perm (Roll.change roll id f reply').2 := by
  rw [stores.answer_of_change now call id f reply hanswer, Roll.change, ← h.findById_eq hperm]
  have hcontains : stores.licenses.byId.contains id = (stores.licenses.findById id).isSome := rfl
  rw [hcontains]
  cases hfound : stores.licenses.findById id with
  | some license =>
    refine ⟨hreply license hfound, ?_⟩
    show (stores.licenses.changed id f).licenses.Perm _
    rw [h.licenses_changed]
    exact hperm.map _
  | none =>
    have hmissing : stores.licenses.byId.contains id = false := by rw [hcontains, hfound]; rfl
    exact ⟨rfl, (LicenseStore.changed_of_not_contains hmissing f).symm ▸ hperm⟩

/-- **Where a search settles the answer, the store gives it**, and stands for the same list after
the call, in whatever order its entries are. -/
theorem answer_eq_roll (h : stores.licenses.Indexed)
    (hperm : stores.licenses.licenses.Perm roll) {call : StoreCall}
    {outcome : Except Failure call.Answer × List License}
    (hroll : Roll.answer? roll now call = some outcome) :
    (stores.answer now call).1 = outcome.1 ∧
      (stores.answer now call).2.licenses.licenses.Perm outcome.2 := by
  cases call with
  | create license =>
    cases hroll
    exact answer_create_eq h hperm license
  | findById id =>
    cases hroll
    exact ⟨congrArg Except.ok (h.findById_eq hperm id), hperm⟩
  | findByKey key =>
    cases hroll
    exact ⟨congrArg Except.ok (h.findByKey_eq hperm key), hperm⟩
  | updateStatus id status =>
    cases hroll
    exact answer_change_eq h hperm (.updateStatus id status) rfl fun _ _ ↦ rfl
  | updateMetadata id metadata =>
    cases hroll
    exact answer_change_eq h hperm (.updateMetadata id metadata) rfl fun _ _ ↦ rfl
  | update edit =>
    cases hroll
    refine answer_change_eq h hperm (.update edit) rfl fun license hfound ↦ ?_
    rw [LicenseStore.findById_changed hfound]
  | list | dashboard | findEnabledKey | createKey | updateLastUsed | listKeys | disableKey =>
    cases hroll

/-- **Any answer of the store is one of the list.** -/
theorem answers_roll (h : stores.licenses.Indexed) (hperm : stores.licenses.licenses.Perm roll)
    (call : StoreCall) : Roll.Answers roll now call (stores.answer now call).1 := by
  cases call with
  | list query =>
    have hids : (roll.map (·.id)).Nodup := (hperm.map _).nodup_iff.1 h.nodup_ids
    have hpage : stores.licenses.list query = query.page roll := by
      show ListQuery.page _ _ = _
      rw [ListQuery.page, query.select_congr hids hperm]
      rfl
    refine ⟨_, rfl, query.select roll, fun license ↦ ?_, ?_, query.pairwise_precedes_select hids,
      hpage⟩
    · rw [ListQuery.mem_select, ListQuery.admits_iff]
    · exact (ListQuery.nodup_ids_select hids).of_map
  | dashboard time window =>
    exact ⟨_, rfl, (Dashboard.summarizes_ofLicenses time window _).perm hperm⟩
  | create | findById | findByKey | updateStatus | updateMetadata | update | findEnabledKey
  | createKey | updateLastUsed | listKeys | disableKey =>
    exact fun _ hroll ↦ (answer_eq_roll h hperm hroll).1

/-- A call that changes one license, where there is none, leaves everything as it was. -/
private theorem snd_of_change {call : StoreCall} {id : Uuid} {f : License → License}
    {reply : LicenseStore → Except Failure call.Answer}
    (hanswer : stores.answer now call = match stores.licenses.change id f with
      | .ok licenses => (reply licenses, { stores with licenses })
      | .error failure => (.error failure, stores))
    (hreply : ∀ license, stores.licenses.byId.get? id = some license →
      ∃ answer, reply (stores.licenses.changed id f) = .ok answer)
    {failure : Failure} (h : (stores.answer now call).1 = .error failure) :
    (stores.answer now call).2 = stores := by
  rw [stores.answer_of_change now call id f reply hanswer] at h ⊢
  split at h
  · next hcontains =>
    obtain ⟨license, hstored⟩ := Option.isSome_iff_exists.1 hcontains
    obtain ⟨answer, hok⟩ := hreply license hstored
    cases hok.symm.trans h
  · next hmissing => rw [LicenseStore.changed_of_not_contains (Bool.eq_false_iff.2 hmissing)]

/-- **A call that fails leaves everything as it was.** -/
theorem answer_snd_of_error {call : StoreCall} {failure : Failure}
    (h : (stores.answer now call).1 = .error failure) : (stores.answer now call).2 = stores := by
  cases call with
  | findById | findByKey | list | dashboard | findEnabledKey | listKeys => cases h
  | updateStatus => exact snd_of_change rfl (fun _ _ ↦ ⟨(), rfl⟩) h
  | updateMetadata => exact snd_of_change rfl (fun _ _ ↦ ⟨(), rfl⟩) h
  | update edit =>
    refine snd_of_change rfl (fun license hstored ↦ ⟨LicenseStore.edited edit now license, ?_⟩) h
    rw [LicenseStore.findById_changed hstored]
  | create license =>
    simp only [answer] at h ⊢
    rcases hcreate : stores.licenses.create license with other | licenses
    · rfl
    · rw [hcreate] at h
      cases h
  | createKey key =>
    simp only [answer] at h ⊢
    rcases hcreate : stores.keys.create key with other | keys
    · rfl
    · rw [hcreate] at h
      cases h
  | updateLastUsed id time =>
    simp only [answer] at h ⊢
    rcases hchange : stores.keys.updateLastUsed id time with other | keys
    · rfl
    · rw [hchange] at h
      cases h
  | disableKey id =>
    simp only [answer] at h ⊢
    rcases hchange : stores.keys.disable id with other | keys
    · rfl
    · rw [hchange] at h
      cases h

end Stores

/-- What a call makes of a stored license keeps its identifier and its key. -/
theorem LicenseStore.Step.exists_kept {now : Instant} {store after : LicenseStore}
    {call : StoreCall} (hstep : store.Step now call after) (h : store.Indexed) {license : License}
    (hmem : license ∈ store.licenses) :
    ∃ later ∈ after.licenses, later.id = license.id ∧ later.key = license.key := by
  have hchanged : ∀ {id : Uuid} {f : License → License},
      (∀ license, (f license).id = license.id ∧ (f license).key = license.key) →
      ∃ later ∈ (store.changed id f).licenses,
        later.id = license.id ∧ later.key = license.key := by
    intro id f hf
    rw [h.licenses_changed]
    refine ⟨_, List.mem_map_of_mem hmem, ?_⟩
    split
    · exact hf license
    · exact ⟨rfl, rfl⟩
  cases hstep with
  | same => exact ⟨license, hmem, rfl, rfl⟩
  | create other hid =>
    exact ⟨license, by rw [licenses_added hid]; exact List.mem_append_left _ hmem, rfl, rfl⟩
  | updateStatus | updateMetadata | update => exact hchanged fun _ ↦ ⟨rfl, rfl⟩

/-! ### Sequences of calls -/

/-- The same entries, in any order. -/
structure LicenseStore.SameEntries (store other : LicenseStore) : Prop where
  byId : store.byId.entries.Perm other.byId.entries
  byKey : store.byKey.entries.Perm other.byKey.entries

theorem LicenseStore.SameEntries.licenses_perm {store other : LicenseStore}
    (h : store.SameEntries other) : other.licenses.Perm store.licenses :=
  (h.byId.map _).symm

/-- To arrange the entries in another order keeps the index. -/
theorem LicenseStore.SameEntries.indexed {store other : LicenseStore}
    (h : store.SameEntries other) (hindexed : store.Indexed) : other.Indexed where
  id_eq hget := hindexed.id_eq ((Table.get?_eq_of_perm h.byId _).trans hget)
  byKey_iff {key id} := by
    rw [← Table.get?_eq_of_perm h.byKey, ← Table.get?_eq_of_perm h.byId]
    exact hindexed.byKey_iff

namespace Stores

/-- The stores after calls, each at its time. -/
def after (stores : Stores) (calls : List (Instant × StoreCall)) : Stores :=
  calls.foldl (fun stores (now, call) ↦ (stores.answer now call).2) stores

/-- From the one the calls lead to the other, each at its time, if the entries of the license store
may be rearranged in between. -/
inductive Runs (first : Stores) : List (Instant × StoreCall) → Stores → Prop
  | start : Runs first [] first
  | call {calls : List (Instant × StoreCall)} {stores : Stores} (h : Runs first calls stores)
      (now : Instant) (call : StoreCall) :
      Runs first (calls ++ [(now, call)]) (stores.answer now call).2
  | rearrange {calls : List (Instant × StoreCall)} {stores : Stores} (h : Runs first calls stores)
      {licenses : LicenseStore} (hsame : stores.licenses.SameEntries licenses) :
      Runs first calls { stores with licenses }

/-- The licenses are kept as they are in a plain list: the two tables agree, no identifier and no
key stands twice, and whatever is called next is answered as the list answers it. -/
structure KeepsRoll (stores : Stores) (roll : List License) : Prop where
  indexed : stores.licenses.Indexed
  licenses_perm : stores.licenses.licenses.Perm roll
  nodup_ids : (roll.map (·.id)).Nodup
  nodup_keys : (roll.map (·.key)).Nodup
  findByKey_iff : ∀ key license, stores.licenses.findByKey key = some license ↔
    license ∈ roll ∧ license.key = key
  answers : ∀ now call, Roll.Answers roll now call (stores.answer now call).1
  next : ∀ now call, (stores.answer now call).2.licenses.licenses.Perm (Roll.next roll now call)
  conflict_iff : ∀ now license,
    (∃ failure, (stores.answer now (.create license)).1 = .error failure ∧
      failure.kind = .conflict) ↔ ∃ other ∈ roll, other.key = license.key ∨ other.id = license.id
  failed : ∀ now call failure, (stores.answer now call).1 = .error failure →
    (stores.answer now call).2 = stores
  kept : ∀ now call, ∀ license ∈ roll, ∃ later ∈ (stores.answer now call).2.licenses.licenses,
    later.id = license.id ∧ later.key = license.key

variable {first stores : Stores} {roll : List License} {calls : List (Instant × StoreCall)}

/-- Calls about API keys leave the licenses alone. -/
theorem licenses_answer_of_roll {now : Instant} {call : StoreCall}
    (h : Roll.answer? roll now call = none) :
    (stores.answer now call).2.licenses = stores.licenses := by
  have hstep := stores.step_answer now call
  generalize (stores.answer now call).2.licenses = licenses at hstep ⊢
  cases hstep with
  | same => rfl
  | create | updateStatus | updateMetadata | update => cases h

/-- **One call**: the store stands for the list that has had the call. -/
theorem licenses_answer_perm (h : stores.licenses.Indexed)
    (hperm : stores.licenses.licenses.Perm roll) (now : Instant) (call : StoreCall) :
    (stores.answer now call).2.licenses.licenses.Perm (Roll.next roll now call) := by
  unfold Roll.next
  cases hroll : Roll.answer? roll now call with
  | some outcome => exact (answer_eq_roll h hperm hroll).2
  | none => exact (licenses_answer_of_roll hroll).symm ▸ hperm

/-- Whatever is called next, an indexed store keeps its licenses as a list of them does. -/
theorem keepsRoll (h : stores.licenses.Indexed) (hperm : stores.licenses.licenses.Perm roll) :
    stores.KeepsRoll roll where
  indexed := h
  licenses_perm := hperm
  nodup_ids := (hperm.map _).nodup_iff.1 h.nodup_ids
  nodup_keys := (hperm.map _).nodup_iff.1 h.nodup_keys
  findByKey_iff key license := by rw [h.findByKey_eq_some_iff, hperm.mem_iff]
  answers _ := answers_roll h hperm
  next := licenses_answer_perm h hperm
  conflict_iff now license := by
    rw [(answer_create_eq h hperm license).1]
    exact Roll.create_conflict_iff
  failed _ _ _ := answer_snd_of_error
  kept now call _ hmem := (stores.step_answer now call).exists_kept h (hperm.mem_iff.2 hmem)

/-- **One call after another**: the index is kept, and the store stands for the list that has had
the same calls. -/
theorem Runs.licenses_perm (hruns : Runs first calls stores) (h : first.licenses.Indexed) :
    stores.licenses.Indexed ∧
      stores.licenses.licenses.Perm (Roll.after first.licenses.licenses calls) := by
  induction hruns with
  | start => exact ⟨h, .refl _⟩
  | call _ now call ih =>
    refine ⟨indexed_answer _ now ih.1 call, ?_⟩
    rw [Roll.after, List.foldl_append]
    exact licenses_answer_perm ih.1 ih.2 now call
  | rearrange _ hsame ih =>
    exact ⟨hsame.indexed ih.1, hsame.licenses_perm.trans ih.2⟩

/-- **The license store is a plain list to whoever calls it.** From an empty store on, after any
calls with any arguments, at any times, and however the entries of the tables are arranged at each:
every license is stored under its own identifier, the index leads from the keys of the stored
licenses to their identifiers and from nothing else anywhere, and whatever is called next is
answered as by the list that has had the same calls. A creation is refused for a conflict exactly if
the key or the identifier is taken, a call that fails leaves everything as it was, and no call
removes a license. -/
theorem keepsRoll_of_runs {keys : ApiKeyStore} (hruns : Runs ⟨.empty, keys⟩ calls stores) :
    stores.KeepsRoll (Roll.after [] calls) := by
  obtain ⟨hindexed, hperm⟩ := hruns.licenses_perm LicenseStore.indexed_empty
  exact keepsRoll hindexed hperm

/-- A license that expires at a fixed time. -/
def expiring (id : Uuid) (key : String) : License :=
  { License.fresh ⟨0⟩ id key "standard" "app" .active with expiresAt := some ⟨7⟩ }

/-- Two licenses are created that expire at the same time. -/
def creatingTwo : List (Instant × StoreCall) :=
  [(⟨0⟩, .create (expiring ⟨1⟩ "A")), (⟨0⟩, .create (expiring ⟨2⟩ "B"))]

/-- Either of the two may be the next to expire, by how the entries come to be arranged. -/
theorem keepsRoll_of_runs_tied : ∃ stores turned : Stores,
    Runs .empty creatingTwo stores ∧ Runs .empty creatingTwo turned ∧
    stores.KeepsRoll (Roll.after [] creatingTwo) ∧ turned.KeepsRoll (Roll.after [] creatingTwo) ∧
    (stores.licenses.dashboard ⟨0⟩ 60).nextToExpire = some ⟨"A", ⟨7⟩, "app"⟩ ∧
    (turned.licenses.dashboard ⟨0⟩ 60).nextToExpire = some ⟨"B", ⟨7⟩, "app"⟩ := by
  let stores : Stores := after .empty creatingTwo
  let turned : LicenseStore := (LicenseStore.single (expiring ⟨2⟩ "B")).added (expiring ⟨1⟩ "A")
  have hruns : Runs .empty creatingTwo stores := (Runs.start.call _ _).call _ _
  have hsame : stores.licenses.SameEntries turned := ⟨.swap _ _ [], .swap _ _ []⟩
  have hturned : Runs .empty creatingTwo { stores with licenses := turned } :=
    hruns.rearrange hsame
  exact ⟨stores, _, hruns, hturned, keepsRoll_of_runs hruns, keepsRoll_of_runs hturned,
    by decide +kernel, by decide +kernel⟩

end Stores

end Licensing
