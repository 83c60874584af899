import Mathlib
import Licensing.Proofs.License.Queue
import Licensing.Proofs.License.Sweep

/-!
# A sweep on its own

With no other writer a sweep examines every active license exactly once, whichever of its writes
fail. The queue shrinks while it is paged, and this is the invariant: at the start of each page the
queue is what was kept of the earlier pages, as long as the offset, followed by the rest of the
first queue as it was (`meets_pages_alone`). Rows that were expired have left, rows that failed or
are not overdue are among those kept, and the offset counts the latter only. So a page never begins
past the end of the queue, and the guard of scheduled sweeps does not strike.

`pass_covers` puts this together for every store, page size, course of the clock and pattern of
failing writes. From below, it rests on

* what the attempts on one page come to (`meets_expireAll_alone`), by induction on the licenses;
* what one page does to the queue and to the offset (`meets_page_alone`), which is where the rows
  that leave and the rows that stay are told apart (`LicenseStore.Indexed.queue_expired_window`);
* that what is examined page by page is the queue as it was at first (`Examined`), and the queue is
  a rearrangement of the active licenses (`LicenseStore.queue_perm`).
-/

namespace Licensing

namespace Sweep

/-- In a sweep on its own writes may fail, in any pattern, but a listing is answered. -/
def ListingsAnswer : Effect → Chance → Prop
  | .store (.list _), chance => chance.failure = none
  | _, _ => True

/-! ### Writing -/

/-- What the writes that succeeded have made of the stores: the license store with these licenses
expired. -/
def Written (before : Stores) (turns : List Turn) (after : Stores) : Prop :=
  ∃ writes : List (Uuid × Instant), writes.map (·.1) = Turn.succeeded turns ∧
    after = { before with licenses := before.licenses.expired writes }

theorem Written.append {before between after : Stores} {turns more : List Turn}
    (h : Written before turns between) (h' : Written between more after) :
    Written before (turns ++ more) after := by
  obtain ⟨writes, hwrites, rfl⟩ := h
  obtain ⟨later, hlater, rfl⟩ := h'
  refine ⟨writes ++ later, ?_, ?_⟩
  · rw [List.map_append, hwrites, hlater, Turn.succeeded_append]
  · rw [LicenseStore.expired_append]

/-- What is seen of expiring licenses one after another: one attempt each, in order, and the counts
of those that succeeded and failed. -/
structure Wrote (licenses : List License) (before : Stores) (turns : List Turn)
    (counts : Nat × Nat) (after : Stores) : Prop where
  readings : Turn.readings turns = []
  listings : Turn.listings turns = []
  attempts : (Turn.statusWrites turns).map (fun write ↦ (write.1, write.2.1)) =
    licenses.map fun license ↦ (license.id, .expired)
  expired : counts.1 = (Turn.succeeded turns).length
  failed : counts.2 = (Turn.failed turns).length
  written : Written before turns after

theorem meets_expireAll_alone (trigger : Trigger) (licenses : List License) (x : Shared) :
    Contract.solitary.Meets (.alone ListingsAnswer) (expireAll trigger licenses)
      (fun turns counts y ↦ Wrote licenses x.stores turns counts y.stores) x := by
  induction licenses generalizing x with
  | nil => exact ⟨rfl, rfl, rfl, rfl, rfl, [], rfl, rfl⟩
  | cons license rest ih =>
    refine meets_expireAll_cons.2 ?_
    rintro _ ⟨now, -, rfl⟩ chance -
    rcases Shared.perform_updateStatus { x with now } chance license.id .expired with
      ⟨failure, hperform⟩ | hperform
    · simp only [hperform]
      refine ⟨rfl, ?_⟩
      rintro _ ⟨later, -, rfl⟩ _ -
      refine ⟨rfl, (ih _).mono fun turns counts y h ↦ ?_⟩
      obtain ⟨writes, hwrites, hafter⟩ := h.written
      exact ⟨h.readings, h.listings, congrArg _ h.attempts, h.expired, congrArg _ h.failed,
        writes, hwrites, hafter⟩
    · simp only [hperform]
      refine ⟨rfl, (ih _).mono fun turns counts y h ↦ ?_⟩
      obtain ⟨writes, hwrites, hafter⟩ := h.written
      exact ⟨h.readings, h.listings, congrArg _ h.attempts, congrArg _ h.expired, h.failed,
        (license.id, now) :: writes, congrArg _ hwrites, hafter⟩

theorem Wrote.ids {licenses : List License} {before after : Stores} {turns : List Turn}
    {counts : Nat × Nat} (h : Wrote licenses before turns counts after) :
    (Turn.statusWrites turns).map (·.1) = licenses.map (·.id) := by
  have hfst := congrArg (List.map Prod.fst) h.attempts
  simpa only [List.map_map, Function.comp_def] using hfst

/-- Who was expired was to be expired. -/
theorem Wrote.succeeded_sublist {licenses : List License} {before after : Stores}
    {turns : List Turn} {counts : Nat × Nat} (h : Wrote licenses before turns counts after) :
    (Turn.succeeded turns).Sublist (licenses.map (·.id)) := by
  rw [← h.ids]
  exact List.filter_sublist.map _

/-! ### One page -/

/-- Of licenses with distinct identifiers, leaving out some leaves the others. -/
theorem length_filter_not_mem {items : List License} {ids : List Uuid}
    (hnodup : (items.map (·.id)).Nodup) (hsub : ids.Sublist (items.map (·.id))) :
    (items.filter (·.id ∉ ids)).length = items.length - ids.length := by
  have hperm : ((items.filter (·.id ∈ ids)).map (·.id)).Perm ids := by
    refine (List.perm_ext_iff_of_nodup (hnodup.sublist (List.filter_sublist.map _))
      (hnodup.sublist hsub)).2 fun id ↦ ?_
    simp only [List.mem_map, List.mem_filter, decide_eq_true_iff]
    constructor
    · rintro ⟨license, ⟨-, hmem⟩, rfl⟩
      exact hmem
    · intro hmem
      obtain ⟨license, hlicense, rfl⟩ := List.mem_map.1 (hsub.subset hmem)
      exact ⟨license, ⟨hlicense, hmem⟩, rfl⟩
  have hlength := hperm.length_eq
  rw [List.length_map] at hlength
  have hsplit := List.length_eq_length_filter_add (l := items) (·.id ∈ ids)
  simp only [decide_not]
  omega

/-- **The guard of scheduled sweeps does not strike.** Where the offset passes over exactly what was
kept, a page is the last only by not being full. -/
theorem Progress.ends_eq {progress : Progress} {kept rest : List License}
    (hoffset : progress.offset = kept.length) (limit : Nat) (counts : Nat × Nat) :
    progress.ends limit ⟨rest.take limit, kept.length + rest.length⟩ counts =
      decide (rest.length < limit) := by
  have hlength : (rest.take limit).length = min limit rest.length := List.length_take
  have hshort : (rest.take limit).length < limit ↔ rest.length < limit := by omega
  have hbeyond : ¬ kept.length + rest.length < kept.length +
      ((rest.take limit).length - counts.1) := by omega
  simp only [Progress.ends, Progress.after, hoffset, hshort, hbeyond, decide_false,
    Bool.and_false, Bool.or_false]

/-- What is seen of one page. -/
structure Turned (progress : Progress) (items : List License) (before : Stores) (turns : List Turn)
    (next : Progress) (after : Stores) : Prop where
  readings : ∃ now, Turn.readings turns = [now] ∧
    (Turn.statusWrites turns).map (fun write ↦ (write.1, write.2.1)) =
      (items.filter (·.isExpiredAt now)).map fun license ↦ (license.id, .expired)
  listings : Turn.listings turns = [items]
  report : next.report = { progress.report with
    pages := progress.report.pages + 1
    scanned := progress.report.scanned + items.length
    expired := progress.report.expired + (Turn.succeeded turns).length
    failed := progress.report.failed + (Turn.failed turns).length }
  written : Written before turns after

/-- **One page**, at a moment when the queue is as much as the offset passes over and a rest. -/
theorem meets_page_alone {limit : Nat} {progress : Progress} {x : Shared}
    {kept rest : List License} (hindexed : x.stores.licenses.Indexed)
    (hqueue : x.stores.licenses.queue = kept ++ rest) (hoffset : progress.offset = kept.length) :
    Contract.solitary.Meets (.alone ListingsAnswer) (page limit progress)
      (fun turns result y ↦ ∃ next, result = .ok (next, decide (rest.length < limit)) ∧
        Turned progress (rest.take limit) x.stores turns next y.stores ∧
        ∃ kept', y.stores.licenses.queue = kept' ++ rest.drop limit ∧
          next.offset = kept'.length) x := by
  refine meets_page.2 ?_
  rintro _ ⟨now, -, rfl⟩ chance hanswered
  have hlisted : x.stores.licenses.list (.activeByExpiry limit progress.offset) =
      ⟨rest.take limit, kept.length + rest.length⟩ := by
    rw [LicenseStore.list_activeByExpiry, hqueue, hoffset, List.drop_left, List.length_append]
  have hchance : chance.failure = none := hanswered
  simp only [Shared.perform_list, Chance.outcome, hchance, hlisted]
  refine ⟨rfl, ?_⟩
  rintro _ ⟨later, -, rfl⟩ _ -
  refine ⟨rfl, (meets_expireAll_alone _ _ _).mono fun turns counts y h ↦ ?_⟩
  obtain ⟨writes, hwrites, hafter⟩ := h.written
  have hsub : (writes.map (·.1)).Sublist ((rest.take limit).map (·.id)) := by
    rw [hwrites]
    exact h.succeeded_sublist.trans (List.filter_sublist.map _)
  have hcount : counts.1 = (writes.map (·.1)).length := by rw [h.expired, hwrites]
  have hwindow : x.stores.licenses.queue = kept ++ (rest.take limit ++ rest.drop limit) := by
    rw [List.take_append_drop, hqueue]
  refine ⟨progress.after ⟨rest.take limit, kept.length + rest.length⟩ counts,
    by rw [Progress.ends_eq hoffset],
    ⟨⟨later, congrArg _ h.readings, h.attempts⟩, congrArg _ h.listings, ?_, ?_⟩,
    kept ++ (rest.take limit).filter (·.id ∉ writes.map (·.1)), ?_, ?_⟩
  · simp only [Progress.after, h.expired, h.failed]
    rfl
  · exact ⟨writes, hwrites, hafter⟩
  · rw [hafter, List.append_assoc]
    exact hindexed.queue_expired_window hwindow hsub.subset
  · have hnodup : ((rest.take limit).map (·.id)).Nodup := by
      refine hindexed.nodup_queue.sublist (List.Sublist.map _ ?_)
      rw [hqueue]
      exact (List.take_sublist limit rest).trans (List.sublist_append_right kept rest)
    rw [List.length_append, length_filter_not_mem hnodup hsub, ← hcount, ← hoffset]
    rfl

/-! ### All pages -/

/-- What is seen of the pages that go through the rest of a queue. -/
structure Examined (limit : Nat) (rest : List License) (before : Stores) (first : Report)
    (turns : List Turn) (report : Report) (after : Stores) : Prop where
  listings : (Turn.listings turns).flatten = rest
  listings_length : (Turn.listings turns).length = rest.length / limit + 1
  readings_length : (Turn.readings turns).length = rest.length / limit + 1
  attempts : (Turn.statusWrites turns).map (fun write ↦ (write.1, write.2.1)) =
    ((Turn.listings turns).zip (Turn.readings turns)).flatMap fun (items, now) ↦
      (items.filter (·.isExpiredAt now)).map fun license ↦ (license.id, .expired)
  report : report = { first with
    pages := first.pages + (rest.length / limit + 1)
    scanned := first.scanned + rest.length
    expired := first.expired + (Turn.succeeded turns).length
    failed := first.failed + (Turn.failed turns).length }
  written : Written before turns after

/-- A page that is not full is the last. -/
theorem Examined.of_last {limit : Nat} {rest : List License} {before after : Stores}
    {progress next : Progress} {turns : List Turn} (hlast : rest.length < limit)
    (h : Turned progress (rest.take limit) before turns next after) :
    Examined limit rest before progress.report turns next.report after := by
  rw [List.take_of_length_le (Nat.le_of_lt hlast)] at h
  obtain ⟨now, hreadings, hattempts⟩ := h.readings
  have hdiv : rest.length / limit = 0 := Nat.div_eq_of_lt hlast
  refine ⟨?_, ?_, ?_, ?_, ?_, h.written⟩
  · simp [h.listings]
  · simp [h.listings, hdiv]
  · simp [hreadings, hdiv]
  · simp [h.listings, hreadings, hattempts]
  · simp [h.report, hdiv]

/-- A full page comes before the others. -/
theorem Examined.of_full {limit : Nat} {rest : List License} {before between after : Stores}
    {progress next : Progress} {turns more : List Turn} {report : Report} (hlimit : 1 ≤ limit)
    (hfull : limit ≤ rest.length)
    (h : Turned progress (rest.take limit) before turns next between)
    (h' : Examined limit (rest.drop limit) between next.report more report after) :
    Examined limit rest before progress.report (turns ++ more) report after := by
  obtain ⟨now, hreadings, hattempts⟩ := h.readings
  have hdiv : rest.length / limit = (rest.drop limit).length / limit + 1 := by
    rw [List.length_drop]
    exact Nat.div_eq_sub_div hlimit hfull
  refine ⟨?_, ?_, ?_, ?_, ?_, h.written.append h'.written⟩
  · simp [h.listings, h'.listings]
  · simp [h.listings, h'.listings_length, hdiv]
  · simp [hreadings, h'.readings_length, hdiv]
  · simp [h.listings, hreadings, hattempts, h'.attempts]
  · have hsplit : rest.length = (rest.take limit).length + (rest.drop limit).length := by
      rw [← List.length_append, List.take_append_drop]
    rw [h'.report, h.report, hdiv]
    simp only [Turn.succeeded_append, Turn.failed_append, List.length_append, Report.mk.injEq,
      true_and]
    omega

/-- **Page after page**, from a moment when the queue is as much as the offset passes over and a
rest. -/
theorem meets_pages_alone {limit : Nat} (hlimit : 1 ≤ limit) {most : Nat} {progress : Progress}
    {x : Shared} {kept rest : List License} (hindexed : x.stores.licenses.Indexed)
    (hqueue : x.stores.licenses.queue = kept ++ rest) (hoffset : progress.offset = kept.length)
    (hmost : rest.length / limit < most) :
    Contract.solitary.Meets (.alone ListingsAnswer) (pages limit most progress)
      (fun turns result y ↦ ∃ report, result = .ok (some report) ∧
        Examined limit rest x.stores progress.report turns report y.stores) x := by
  -- Each page splits the queue anew, so what was kept and what is left both vary.
  induction most generalizing progress x kept rest with
  | zero => exact absurd hmost (Nat.not_lt_zero _)
  | succ most ih =>
    refine meets_pages_succ.2 ((meets_page_alone hindexed hqueue hoffset).mono ?_)
    rintro turns result y ⟨next, rfl, hturned, kept', hqueue', hoffset'⟩
    by_cases hlast : rest.length < limit
    · simp only [hlast, decide_true]
      exact ⟨next.report, rfl, .of_last hlast hturned⟩
    · simp only [hlast, decide_false]
      have hfull := Nat.le_of_not_lt hlast
      have hindexed' : y.stores.licenses.Indexed := by
        obtain ⟨writes, -, hafter⟩ := hturned.written
        rw [hafter]
        exact hindexed.expired writes
      have hmost' : (rest.drop limit).length / limit < most := by
        rw [List.length_drop]
        have hdiv := Nat.div_eq_sub_div hlimit hfull
        omega
      refine (ih hindexed' hqueue' hoffset' hmost').mono ?_
      rintro more result z ⟨report, rfl, hexamined⟩
      exact ⟨report, rfl, .of_full hlimit hfull hturned hexamined⟩

/-- Every attempt is on a license of some page, in the order of the pages. -/
theorem Examined.ids_sublist {limit : Nat} {rest : List License} {before after : Stores}
    {first report : Report} {turns : List Turn}
    (h : Examined limit rest before first turns report after) :
    ((Turn.statusWrites turns).map (·.1)).Sublist (rest.map (·.id)) := by
  have hids : (Turn.statusWrites turns).map (·.1) =
      ((Turn.listings turns).zip (Turn.readings turns)).flatMap fun (items, now) ↦
        (items.filter (·.isExpiredAt now)).map (·.id) := by
    have hfst := congrArg (List.map Prod.fst) h.attempts
    simpa only [List.map_map, List.map_flatMap, Function.comp_def] using hfst
  have hsub : ∀ (listings : List (List License)) (readings : List Instant),
      ((listings.zip readings).flatMap fun (items, now) ↦
        (items.filter (·.isExpiredAt now)).map (·.id)).Sublist (listings.flatten.map (·.id)) := by
    -- With fewer readings than pages there are fewer attempts, so the lengths do not matter.
    intro listings
    induction listings with
    | nil => exact fun _ ↦ List.Sublist.refl _
    | cons items later ih =>
      rintro (- | ⟨now, readings⟩)
      · exact List.nil_sublist _
      · rw [List.zip_cons_cons, List.flatMap_cons, List.flatten_cons, List.map_append]
        exact (List.filter_sublist.map _).append (ih readings)
  rw [hids, ← h.listings]
  exact hsub _ _

/-- What a sweep has to account for. The active licenses are on its pages, each once and on one
page; of each page, what is overdue by the clock as it was read for this page is attempted, and
nothing else is; the report counts pages, licenses, and attempts as they went; and the licenses that
were set to expired are changed in this and the time of change, and all else is as it was. -/
structure Covered (before : Stores) (limit : Nat) (turns : List Turn) (report : Report)
    (after : Stores) : Prop where
  pages : report.pages =
    (before.licenses.licenses.filter (·.status = .active)).length / limit + 1
  scanned : report.scanned = (before.licenses.licenses.filter (·.status = .active)).length
  listings : (Turn.listings turns).flatten.Perm
    (before.licenses.licenses.filter (·.status = .active))
  listings_length : (Turn.listings turns).length = report.pages
  readings_length : (Turn.readings turns).length = report.pages
  attempts : (Turn.statusWrites turns).map (fun write ↦ (write.1, write.2.1)) =
    ((Turn.listings turns).zip (Turn.readings turns)).flatMap fun (items, now) ↦
      (items.filter (·.isExpiredAt now)).map fun license ↦ (license.id, .expired)
  attempts_nodup : ((Turn.statusWrites turns).map (·.1)).Nodup
  expired : report.expired = (Turn.succeeded turns).length
  failed : report.failed = (Turn.failed turns).length
  keys : after.keys = before.keys
  byKey : after.licenses.byKey = before.licenses.byKey
  changed : ∀ id ∈ Turn.succeeded turns, ∃ license now,
    before.licenses.byId.get? id = some license ∧
      after.licenses.byId.get? id = some (license.withStatus .expired now)
  unchanged : ∀ id ∉ Turn.succeeded turns,
    after.licenses.byId.get? id = before.licenses.byId.get? id

/-- A turn that lists nothing, reads no clock and sets no status is not accounted for. -/
theorem Covered.append_idle {before after : Stores} {limit : Nat} {turns : List Turn}
    {report : Report} {turn : Turn} (hlisting : turn.listing? = none)
    (hreading : turn.reading? = none) (hwrite : turn.statusWrite? = none)
    (h : Covered before limit turns report after) :
    Covered before limit (turns ++ [turn]) report after := by
  have hlistings : Turn.listings (turns ++ [turn]) = Turn.listings turns := by
    simp [Turn.listings, hlisting]
  have hreadings : Turn.readings (turns ++ [turn]) = Turn.readings turns := by
    simp [Turn.readings, hreading]
  have hwrites : Turn.statusWrites (turns ++ [turn]) = Turn.statusWrites turns := by
    simp [Turn.statusWrites, hwrite]
  have hsucceeded : Turn.succeeded (turns ++ [turn]) = Turn.succeeded turns := by
    rw [Turn.succeeded, hwrites, Turn.succeeded]
  have hfailed : Turn.failed (turns ++ [turn]) = Turn.failed turns := by
    rw [Turn.failed, hwrites, Turn.failed]
  constructor
  case pages => exact h.pages
  case scanned => exact h.scanned
  case keys => exact h.keys
  case byKey => exact h.byKey
  all_goals simp only [hlistings, hreadings, hwrites, hsucceeded, hfailed]
  exacts [h.listings, h.listings_length, h.readings_length, h.attempts, h.attempts_nodup, h.expired,
    h.failed, h.changed, h.unchanged]

theorem Examined.covered {limit : Nat} {before after : Stores} {trigger : Trigger}
    {report : Report} {turns : List Turn} (hindexed : before.licenses.Indexed)
    (h : Examined limit before.licenses.queue before (Progress.start trigger).report turns report
      after) : Covered before limit turns report after := by
  have hlength := before.licenses.queue_perm.length_eq
  obtain ⟨writes, hwrites, rfl⟩ := h.written
  have hreport := h.report
  constructor
  case pages => simp [hreport, Progress.start, hlength]
  case scanned => simp [hreport, Progress.start, hlength]
  case listings =>
    rw [h.listings]
    exact before.licenses.queue_perm
  case listings_length => simp [hreport, Progress.start, h.listings_length]
  case readings_length => simp [hreport, Progress.start, h.readings_length]
  case attempts => exact h.attempts
  case attempts_nodup => exact hindexed.nodup_queue.sublist h.ids_sublist
  case expired => simp [hreport, Progress.start]
  case failed => simp [hreport, Progress.start]
  case keys => rfl
  case byKey => exact before.licenses.byKey_expired writes
  case changed =>
    intro id hid
    have hqueued : id ∈ before.licenses.queue.map (·.id) :=
      h.ids_sublist.subset ((List.filter_sublist.map _).subset hid)
    obtain ⟨license, hlicense, rfl⟩ := List.mem_map.1 hqueued
    have hstored := hindexed.mem_licenses_iff.1 (LicenseStore.mem_queue.1 hlicense).1
    rw [← hwrites] at hid
    obtain ⟨now, -, hget⟩ := before.licenses.get?_expired_of_mem hid
    rw [hstored] at hget
    exact ⟨license, now, hstored, hget⟩
  case unchanged =>
    intro id hid
    rw [← hwrites] at hid
    exact LicenseStore.get?_expired_of_not_mem hid

/-- **A sweep on its own examines every active license exactly once, whatever rows fail.** Take any
indexed store, either trigger, any page size, any course of the clock and any pattern of failing
writes. Then the sweep comes to its end, and it has accounted for all that it has to (`Covered`).
The bound on the pages only has to allow for the last one: no other end is ever reached, so the
guard of scheduled sweeps does not stop one early. -/
theorem pass_covers (stores : Stores) (hindexed : stores.licenses.Indexed) (start : Instant)
    (trigger : Trigger) {limit most : Nat} (hlimit : 1 ≤ limit)
    (hmost : (stores.licenses.licenses.filter (·.status = .active)).length / limit < most)
    (course : Course (.alone ListingsAnswer)) :
    ∃ report, (course.watch (pass most limit trigger) ⟨⟨stores, start⟩, []⟩).value =
        .ok (some report) ∧ report.trigger = trigger ∧
      Covered stores limit
        (course.watch (pass most limit trigger) ⟨⟨stores, start⟩, []⟩).turns report
        (course.watch (pass most limit trigger) ⟨⟨stores, start⟩, []⟩).system.stores := by
  have hmeets : Contract.solitary.Meets (.alone ListingsAnswer) (pass most limit trigger)
      (fun turns result y ↦ ∃ report, result = .ok (some report) ∧ report.trigger = trigger ∧
        Covered stores limit turns report y.stores) ⟨stores, start⟩ := by
    rw [← stores.licenses.queue_perm.length_eq] at hmost
    have hqueue : stores.licenses.queue = [] ++ stores.licenses.queue := rfl
    refine meets_pass.2 ((meets_pages_alone hlimit hindexed hqueue rfl hmost).mono ?_)
    rintro turns result y ⟨report, rfl, hexamined⟩
    rintro _ ⟨now, -, rfl⟩ _ -
    exact ⟨rfl, report, rfl, by rw [hexamined.report]; rfl,
      (hexamined.covered hindexed).append_idle rfl rfl rfl⟩
  exact Contract.watch_alone course hmeets

/-- Three active licenses, of which two are overdue. -/
def threeActive : Stores where
  licenses :=
    ((LicenseStore.single
        { License.fresh ⟨0⟩ ⟨1⟩ "A" "standard" "app" .active with expiresAt := some ⟨3⟩ }).added
      { License.fresh ⟨0⟩ ⟨2⟩ "B" "standard" "app" .active with expiresAt := some ⟨4⟩ }).added
      (License.fresh ⟨0⟩ ⟨3⟩ "C" "standard" "app" .active)
  keys := .empty

/-- The course of a service on its own where one license cannot be written. -/
def oneRefused : Course (.alone ListingsAnswer) :=
  .idle (fun
    | .store (.updateStatus id _) =>
      { failure := if id = ⟨2⟩ then some (.noConnection none) else none }
    | _ => {}) fun x effect ↦ by
      rcases effect with (_ | _) | _ <;> trivial

/-- Pages of one: the first license is expired, the second cannot be, the third has time left. The
last page is empty. -/
theorem pass_covers_refused :
    let account := oneRefused.watch (pass 4 1 .scheduled) ⟨⟨threeActive, ⟨5⟩⟩, []⟩
    threeActive.licenses.Indexed ∧
      (threeActive.licenses.licenses.filter (·.status = .active)).length / 1 < 4 ∧
      account.value = .ok (some ⟨.scheduled, 4, 3, 1, 1⟩) ∧
      account.system.stores.licenses.licenses.map (·.status) = [.expired, .active, .active] ∧
      Covered threeActive 1 account.turns ⟨.scheduled, 4, 3, 1, 1⟩ account.system.stores := by
  intro account
  have hindexed : threeActive.licenses.Indexed :=
    ((LicenseStore.indexed_single _).added rfl rfl).added rfl rfl
  have hmost : (threeActive.licenses.licenses.filter (·.status = .active)).length / 1 < 4 := by
    decide +kernel
  have hvalue : account.value = .ok (some ⟨.scheduled, 4, 3, 1, 1⟩) := by cbv
  obtain ⟨report, hreport, -, hcovered⟩ :=
    pass_covers threeActive hindexed ⟨5⟩ .scheduled (Nat.le_refl 1) hmost oneRefused
  obtain rfl : report = ⟨.scheduled, 4, 3, 1, 1⟩ := by
    cases hreport.symm.trans hvalue
    rfl
  exact ⟨hindexed, hmost, hvalue, by cbv, hcovered⟩

end Sweep

end Licensing
