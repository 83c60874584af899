import Licensing.Proofs.Listing.Order
import Licensing.Proofs.License.Keeping

/-!
# The queue of active licenses

What a sweep goes through: the active licenses, the next to expire first (`LicenseStore.queue`).
Every listing of a sweep is a window on it (`list_activeByExpiry`). A license that is expired leaves
the queue and nothing else in it moves, which for any number of writes is `queue_expired`.

Both rest on listings commuting with filters (`ListQuery.select_filter`): the queue after a write is
the selection from fewer licenses, and a selection from fewer licenses is the old one with some left
out. That licenses with an expiry stand in the order of it, and those without one behind them, is
what `isExpiredAt_of_before` needs of the order.
-/

namespace Licensing.LicenseStore

/-- The active licenses, the next to expire first. -/
def queue (store : LicenseStore) : List License :=
  (ListQuery.activeByExpiry 0 0).select store.licenses

/-- **A listing is a window on the queue.** -/
theorem list_activeByExpiry (store : LicenseStore) (limit offset : Nat) :
    store.list (.activeByExpiry limit offset) =
      ⟨(store.queue.drop offset).take limit, store.queue.length⟩ := rfl

variable {store : LicenseStore}

theorem queue_perm (store : LicenseStore) :
    store.queue.Perm (store.licenses.filter (·.status = .active)) := by
  rw [queue, ← ListQuery.admits_activeByExpiry 0 0]
  exact ListQuery.select_perm _ _

theorem mem_queue {license : License} :
    license ∈ store.queue ↔ license ∈ store.licenses ∧ license.status = .active := by
  rw [store.queue_perm.mem_iff, List.mem_filter, decide_eq_true_iff]

theorem Indexed.nodup_queue (h : store.Indexed) : (store.queue.map (·.id)).Nodup :=
  ListQuery.nodup_ids_select h.nodup_ids

/-- Whoever stands before an overdue license is overdue. -/
theorem isExpiredAt_of_before {before behind : List License}
    (hqueue : store.queue = before ++ behind) {earlier later : License}
    (hearlier : earlier ∈ before) (hlater : later ∈ behind) {now : Instant}
    (hpast : later.isExpiredAt now = true) :
    earlier.isExpiredAt now = true := by
  have hsorted := (ListQuery.activeByExpiry 0 0).pairwise_select store.licenses
  rw [show (ListQuery.activeByExpiry 0 0).select store.licenses = before ++ behind from hqueue,
    List.pairwise_append] at hsorted
  have horder := hsorted.2.2 earlier hearlier later hlater
  have hexpiry : (ListQuery.compareOptional Instant.compare earlier.expiresAt
      later.expiresAt).isLE = true := by
    change ((ListQuery.compareOptional Instant.compare earlier.expiresAt later.expiresAt).then
      (Uuid.compare earlier.id later.id)).isLE = true at horder
    revert horder
    cases ListQuery.compareOptional Instant.compare earlier.expiresAt later.expiresAt <;> simp
  obtain ⟨expiry, heq, hlt⟩ := (later.isExpiredAt_eq_true_iff now).1 hpast
  rw [heq] at hexpiry
  -- A missing expiry would rank last, so the earlier license has one, and no later one.
  rcases hmissing : earlier.expiresAt with - | sooner
  · rw [hmissing] at hexpiry
    cases hexpiry
  · rw [hmissing] at hexpiry
    have hle : sooner ≤ expiry := Instant.compare_isLE_iff.1 hexpiry
    exact (earlier.isExpiredAt_eq_true_iff now).2 ⟨sooner, hmissing, Int.lt_of_le_of_lt hle hlt⟩

/-! ### Expiring licenses -/

/-- Expiring a license takes it out of the queue. -/
theorem Indexed.queue_changed (h : store.Indexed) (id : Uuid) (now : Instant) :
    (store.changed id (·.withStatus .expired now)).queue = store.queue.filter (·.id ≠ id) := by
  have hlicenses : (store.changed id (·.withStatus .expired now)).licenses =
      store.licenses.map fun license ↦
        if license.id = id then license.withStatus .expired now else license :=
    Table.values_modify_of_key h.id_eq id _
  have hactive : ∀ licenses : List License,
      (licenses.map fun license ↦
          if license.id = id then license.withStatus .expired now else license).filter
        (·.status = .active) =
      (licenses.filter (·.id ≠ id)).filter (·.status = .active) := by
    intro licenses
    induction licenses with
    | nil => rfl
    | cons license rest ih =>
      by_cases hid : license.id = id
      · simpa [hid, License.withStatus] using ih
      · by_cases hstatus : license.status = .active <;> simpa [hid, hstatus] using ih
  -- To the queue, expiring a license is as good as removing it.
  have hselect : (store.changed id (·.withStatus .expired now)).queue =
      (ListQuery.activeByExpiry 0 0).select (store.licenses.filter (·.id ≠ id)) := by
    simp only [queue, ListQuery.select, ListQuery.admits_activeByExpiry, hlicenses, hactive]
  rw [hselect, ListQuery.select_filter _ h.nodup_ids]
  rfl

/-- The store after licenses were expired one after another, each at its time. -/
def expired (store : LicenseStore) (writes : List (Uuid × Instant)) : LicenseStore :=
  writes.foldl (fun store write ↦ store.changed write.1 (·.withStatus .expired write.2)) store

theorem expired_append (store : LicenseStore) (writes more : List (Uuid × Instant)) :
    store.expired (writes ++ more) = (store.expired writes).expired more :=
  List.foldl_append

theorem byKey_expired (store : LicenseStore) (writes : List (Uuid × Instant)) :
    (store.expired writes).byKey = store.byKey := by
  induction writes generalizing store with
  | nil => rfl
  | cons write rest ih => exact ih _

theorem Indexed.expired (h : store.Indexed) (writes : List (Uuid × Instant)) :
    (store.expired writes).Indexed := by
  induction writes generalizing store with
  | nil => exact h
  | cons write rest ih => exact ih (h.changed write.1 (fun _ ↦ rfl) fun _ ↦ rfl)

/-- **Expiring licenses takes exactly them out of the queue.** -/
theorem Indexed.queue_expired (h : store.Indexed) (writes : List (Uuid × Instant)) :
    (store.expired writes).queue =
      store.queue.filter fun license ↦ license.id ∉ writes.map (·.1) := by
  induction writes generalizing store with
  | nil => simp [LicenseStore.expired]
  | cons write rest ih =>
    have hchanged : (store.changed write.1 (·.withStatus .expired write.2)).Indexed :=
      h.changed write.1 (fun _ ↦ rfl) fun _ ↦ rfl
    refine (ih hchanged).trans ?_
    rw [h.queue_changed, List.filter_filter]
    refine List.filter_congr fun license _ ↦ ?_
    by_cases hid : license.id = write.1 <;> simp [hid]

/-- Expiring licenses within a window leaves what stands before and behind it. -/
theorem Indexed.queue_expired_window (h : store.Indexed) {before window behind : List License}
    (hqueue : store.queue = before ++ (window ++ behind)) {writes : List (Uuid × Instant)}
    (hwrites : ∀ id ∈ writes.map (·.1), id ∈ window.map (·.id)) :
    (store.expired writes).queue =
      before ++ (window.filter (·.id ∉ writes.map (·.1)) ++ behind) := by
  have hnodup := h.nodup_queue
  rw [hqueue, List.map_append, List.map_append, List.nodup_append, List.nodup_append] at hnodup
  obtain ⟨-, ⟨-, -, hbehind⟩, hbefore⟩ := hnodup
  have hstays : ∀ part : List License,
      (∀ license ∈ part, license.id ∉ window.map (·.id)) →
      part.filter (·.id ∉ writes.map (·.1)) = part := by
    intro part hpart
    refine List.filter_eq_self.2 fun license hlicense ↦ decide_eq_true fun hmem ↦ ?_
    exact hpart license hlicense (hwrites _ hmem)
  rw [h.queue_expired, hqueue, List.filter_append, List.filter_append, hstays before, hstays behind]
  · exact fun license hlicense hmem ↦
      hbehind _ hmem _ (List.mem_map_of_mem hlicense) rfl
  · exact fun license hlicense hmem ↦
      hbefore _ (List.mem_map_of_mem hlicense) _ (List.mem_append_left _ hmem) rfl

theorem get?_expired_of_not_mem {writes : List (Uuid × Instant)} {id : Uuid}
    (hid : id ∉ writes.map (·.1)) : (store.expired writes).byId.get? id = store.byId.get? id := by
  induction writes generalizing store with
  | nil => rfl
  | cons write rest ih =>
    rw [List.map_cons, List.mem_cons, not_or] at hid
    refine (ih hid.2).trans ?_
    rw [get?_changed, if_neg hid.1]

/-- **A license that was expired has a new status and time of change**, and else is as it was. -/
theorem get?_expired_of_mem (store : LicenseStore) {writes : List (Uuid × Instant)} {id : Uuid}
    (hid : id ∈ writes.map (·.1)) : ∃ now, (id, now) ∈ writes ∧
      (store.expired writes).byId.get? id =
        (store.byId.get? id).map (·.withStatus .expired now) := by
  induction writes generalizing store with
  | nil => simp at hid
  | cons write rest ih =>
    by_cases hrest : id ∈ rest.map (·.1)
    · obtain ⟨now, hmem, hget⟩ := ih (store.changed write.1 (·.withStatus .expired write.2)) hrest
      refine ⟨now, List.mem_cons_of_mem write hmem, hget.trans ?_⟩
      rw [get?_changed]
      -- A later write of the same status leaves nothing of an earlier one.
      split
      · exact Option.map_map _ _ _
      · rfl
    · obtain rfl : id = write.1 := by simpa [hrest] using hid
      refine ⟨write.2, List.mem_cons_self, (get?_expired_of_not_mem hrest).trans ?_⟩
      rw [get?_changed, if_pos rfl]

end Licensing.LicenseStore
