import Licensing.Proofs.License.Enrichment
import Licensing.Proofs.License.Expiration

/-!
# The life of a license

Six kinds of writes reach the record of a license: it is issued, the operator amends it or sets its
status, a sweep or a task expires it, and a task notes an acceptance. Some of them carry what was
read long before. Whatever their order, from an empty store on (`Chronicle.Reached.lives`):

* a stored license goes back to one that was issued, and has the identity that it was issued with
  (`License.Continues`);
* its record is in order (`License.InOrder`);
* it stays stored, and its status changes by a write of a status only.

The invariant is about the licenses stored at a moment. An amendment puts in what it has read at an
earlier moment, which was in order for the same reason.

`Reached.lives` rests on the two halves of what an event makes of the store: what is stored was
stored before or has just been created (`Answered.changes_or_creates`), and whatever an event makes
of a license, it is the same license (`Changes.continues`). The rest is induction on the record, and
the one place where the past is needed is an amendment.
-/

namespace Licensing

namespace License

/-- The same license some time later: its identity is as it was, and it was touched no earlier. -/
structure Continues (license later : License) : Prop where
  id_eq : later.id = license.id
  key_eq : later.key = license.key
  createdAt_eq : later.createdAt = license.createdAt
  issuedAt_eq : later.issuedAt = license.issuedAt
  updatedAt_le : license.updatedAt ≤ later.updatedAt

namespace Continues

variable {a b c : License}

protected theorem refl (a : License) : a.Continues a := ⟨rfl, rfl, rfl, rfl, Int.le_refl _⟩

theorem trans (hab : a.Continues b) (hbc : b.Continues c) : a.Continues c :=
  ⟨hbc.id_eq.trans hab.id_eq, hbc.key_eq.trans hab.key_eq,
    hbc.createdAt_eq.trans hab.createdAt_eq, hbc.issuedAt_eq.trans hab.issuedAt_eq,
    Instant.le_trans hab.updatedAt_le hbc.updatedAt_le⟩

end Continues

/-- What an operator may set is in order: type and product are not blank, and metadata, where there
are any, are an object. -/
structure Fit (license : License) : Prop where
  kind : Text.allBlank license.kind.toList = false
  product : Text.allBlank license.product.toList = false
  metadata : ∀ value, license.metadata = some value → value.isObject = true

/-- The record is in order: what an operator may set is, and the license was not touched before it
was created. -/
structure InOrder (license : License) : Prop extends license.Fit where
  touched : license.createdAt ≤ license.updatedAt

end License

/-- A request that breaks no rule asks for a license whose record is in order. -/
theorem IssueRequest.inOrder_toLicense {request : IssueRequest} {now : Instant}
    (h : request.fault? now = none) (key : String) (id : Uuid) :
    (request.toLicense now key id).InOrder := by
  unfold fault? at h
  split_ifs at h with hkind hproduct hmetadata hexpiry
  refine ⟨⟨Bool.eq_false_iff.2 hkind, Bool.eq_false_iff.2 hproduct, fun value hvalue ↦ ?_⟩,
    Int.le_refl _⟩
  have hsent : request.metadata = some value := hvalue
  simpa [hsent] using hmetadata

/-- A license counts as issued from its creation on, if it starts out active, and never
otherwise. -/
theorem IssueRequest.issuedAt_toLicense (request : IssueRequest) (now : Instant) (key : String)
    (id : Uuid) : (request.toLicense now key id).issuedAt =
      if (request.toLicense now key id).status = .active then
        some (request.toLicense now key id).createdAt
      else none := rfl

/-- An amendment that breaks no rule leaves what an operator may set in order. -/
theorem Amendment.fit_apply {amendment : Amendment} {license : License}
    (h : amendment.fault? = none) (hlicense : license.Fit) : (amendment.apply license).Fit := by
  unfold fault? at h
  split_ifs at h with hkind hproduct hmetadata
  constructor
  · show Text.allBlank (amendment.kind.getD license.kind).toList = false
    rcases hnamed : amendment.kind with - | kind
    · exact hlicense.kind
    · simpa [hnamed] using hkind
  · show Text.allBlank (amendment.product.getD license.product).toList = false
    rcases hnamed : amendment.product with - | product
    · exact hlicense.product
    · simpa [hnamed] using hproduct
  · intro value hvalue
    have heither : amendment.metadata.or license.metadata = some value := hvalue
    rcases hnamed : amendment.metadata with - | metadata
    · rw [hnamed] at heither
      exact hlicense.metadata value heither
    · rw [hnamed] at heither
      obtain rfl : metadata = value := Option.some.inj heither
      simpa [hnamed] using hmetadata

namespace Event

variable {e : Event}

/-- A license is stored that was not there before, as an operator has asked for it. -/
structure Issues (e : Event) (license : License) : Prop where
  origin : ∃ request, e.origin = .demand (.issue request)
  turn : e.turn = ⟨.store (.create license), .ok license⟩
  unknown : e.before.stores.licenses.byId.get? license.id = none
  stored : e.after.stores.licenses.byId.get? license.id = some license

/-- **What is stored was stored before, or has just been created.** -/
theorem Answered.changes_or_creates (h : e.Answered) (hindexed : e.before.stores.licenses.Indexed)
    {license : License} (hstored : e.after.stores.licenses.byId.get? license.id = some license) :
    (∃ earlier, e.before.stores.licenses.byId.get? license.id = some earlier ∧
      e.Changes earlier license) ∨
    e.before.stores.licenses.byId.get? license.id = none ∧
      e.turn = ⟨.store (.create license), .ok license⟩ := by
  rcases hbefore : e.before.stores.licenses.byId.get? license.id with - | earlier
  · refine .inr ⟨rfl, ?_⟩
    rcases h.cases with hsame | ⟨call, hturn, hafter⟩
    · rw [hsame, hbefore] at hstored
      cases hstored
    have hstep := e.before.stores.step_answer e.before.now call
    rw [hafter] at hstored
    -- Changes in place add nothing.
    have hnot : ∀ {id : Uuid} {f : License → License},
        (e.before.stores.licenses.changed id f).byId.get? license.id ≠ some license := by
      intro id f hchanged
      rw [LicenseStore.get?_changed, hbefore] at hchanged
      split at hchanged <;> cases hchanged
    generalize hlicenses : (e.before.stores.answer e.before.now call).2.licenses = licenses
      at hstep hstored
    cases hstep with
    | same =>
      rw [hbefore] at hstored
      cases hstored
    | create other hid hkey =>
      rw [LicenseStore.added, Table.get?_insert] at hstored
      split at hstored
      · cases Option.some.inj hstored
        rw [hturn, Stores.answer_create_of_new _ _ hid hkey]
      · rw [hbefore] at hstored
        cases hstored
    | updateStatus | updateMetadata | update => exact absurd hstored hnot
  · refine .inl ⟨earlier, rfl, ?_⟩
    have hid : earlier.id = license.id := hindexed.id_eq hbefore
    obtain ⟨after, hafter, hchanges⟩ := h.changes (hid.symm ▸ hbefore)
    rw [hid] at hafter
    obtain rfl : after = license := Option.some.inj (hafter.symm.trans hstored)
    exact hchanges

/-- **Whatever an event makes of a license, it is the same license.** -/
theorem Changes.continues {license after : License} (h : e.Changes license after)
    (hle : license.updatedAt ≤ e.before.now) : license.Continues after := by
  cases h with
  | same => exact .refl license
  | status | metadata | edit => exact ⟨rfl, rfl, rfl, rfl, hle⟩

end Event

/-! ### Over whole runs -/

/-- The license goes back to one that was issued. -/
def License.Stems (events : List Event) (license : License) : Prop :=
  ∃ e ∈ events, ∃ first, e.Issues first ∧ first.Continues license ∧
    license.issuedAt = if first.status = .active then some license.createdAt else none

/-- At a moment of a run, all stored licenses are in order, were touched in the past, and go back to
licenses that were issued. -/
def Shared.InOrder (events : List Event) (y : Shared) : Prop :=
  ∀ license, y.stores.licenses.byId.get? license.id = some license →
    license.InOrder ∧ license.updatedAt ≤ y.now ∧ license.Stems events

namespace Chronicle

variable {admits : Demand → Prop} {x : Shared} {c : Chronicle} {past future : List Event}
  {e : Event} {license : License}

/-- **A license is created in order**, at a time that was read before. -/
theorem Sound.inOrder_of_create (h : c.Sound admits x) (hsplit : c.events = past ++ e :: future)
    (hunknown : e.before.stores.licenses.byId.get? license.id = none)
    (hstored : e.after.stores.licenses.byId.get? license.id = some license)
    (hturn : e.turn = ⟨.store (.create license), .ok license⟩) :
    license.InOrder ∧ license.updatedAt ≤ e.before.now ∧ license.Stems c.events := by
  obtain ⟨request, now, key, id, horigin, hturns, hfault, rfl⟩ :=
    ((h.proper hsplit).writes (congrArg Sigma.fst hturn) rfl).create_cases
  have hissues : e.Issues (request.toLicense now key.toText id) :=
    ⟨⟨request, horigin⟩, hturn, hunknown, hstored⟩
  refine ⟨request.inOrder_toLicense hfault _ _, ?_, e, hsplit ▸ by simp, _, hissues, .refl _,
    request.issuedAt_toLicense _ _ _⟩
  obtain ⟨before, read, after, rfl, -, hclock, -⟩ :=
    exists_of_turnsOf_eq (hturns.trans (List.nil_append _).symm)
  obtain ⟨hlinked, -, -⟩ := Linked.append_cons_iff.1 (hsplit ▸ h.linked)
  have hread := (Linked.append_cons_iff.1 hlinked).2.1.clock_eq hclock
  show now ≤ e.before.now
  rw [← hread]
  exact hlinked.now_le_of_mem (by simp)

/-- **A license is changed in order**, if whatever was stored before any earlier event was in
order. -/
theorem Sound.inOrder_of_changes (h : c.Sound admits x) (hindexed : x.stores.licenses.Indexed)
    (hsplit : c.events = past ++ e :: future)
    (hpast : ∀ earlier ∈ past, earlier.before.InOrder c.events) (hinorder : license.InOrder)
    (hle : license.updatedAt ≤ e.before.now) {after : License}
    (hchanges : e.Changes license after) :
    after.InOrder ∧ after.updatedAt ≤ e.before.now := by
  have htouched : license.createdAt ≤ e.before.now := Instant.le_trans hinorder.touched hle
  cases hchanges with
  | same => exact ⟨hinorder, hle⟩
  | status =>
    exact ⟨⟨⟨hinorder.kind, hinorder.product, hinorder.metadata⟩, htouched⟩, Int.le_refl _⟩
  | metadata hturn =>
    obtain ⟨request, seen, now, _, _, _, -, -, -, -, -, rfl⟩ :=
      h.glimpse_of_updateMetadata hsplit (congrArg Sigma.fst hturn)
    refine ⟨⟨⟨hinorder.kind, hinorder.product, ?_⟩, htouched⟩, Int.le_refl _⟩
    rintro value ⟨⟩
    exact Metadata.isObject_enriched _ _ _
  | edit hturn hid =>
    obtain ⟨amendment, seen, before, look, since, rfl, -, hfound, -, rfl, hfault⟩ :=
      h.look_of_update hindexed hsplit (congrArg Sigma.fst hturn)
    have hlinked := (Linked.append_cons_iff.1 (hsplit ▸ h.linked)).1
    have hseen : seen.InOrder :=
      (hpast look (by simp) seen
        (hlinked.stored_of_shows hindexed (by simp) (hfound ▸ .byId))).1
    obtain ⟨hkind, hproduct, hmetadata⟩ := Amendment.fit_apply hfault hseen.toFit
    exact ⟨⟨⟨hkind, hproduct, hmetadata⟩, htouched⟩, Int.le_refl _⟩

/-- **From an empty store on, all records are in order at all times.** -/
theorem Sound.inOrder (h : c.Sound admits x) (hempty : x.stores.licenses = .empty) :
    c.toShared.InOrder c.events ∧ ∀ e ∈ c.events, e.before.InOrder c.events := by
  have hindexed : x.stores.licenses.Indexed := hempty ▸ LicenseStore.indexed_empty
  have hstart : x.InOrder c.events := by
    intro license hstored
    rw [hempty] at hstored
    cases hstored
  have hwait : ∀ {y z : Shared}, y.InOrder c.events → y.Waits z → z.InOrder c.events := by
    intro y z hy hwaits license hstored
    obtain ⟨hinorder, hle, hstems⟩ := hy license (hwaits.1 ▸ hstored)
    exact ⟨hinorder, Instant.le_trans hle hwaits.2, hstems⟩
  refine h.linked.invariant hstart hwait fun hsplit hanswered hpast hbefore license hstored ↦ ?_
  have hlinked := (Linked.append_cons_iff.1 (hsplit ▸ h.linked)).1
  rw [hanswered.now_eq]
  rcases hanswered.changes_or_creates (hlinked.indexed hindexed).1 hstored with
    ⟨earlier, hearlier, hchanges⟩ | ⟨hunknown, hturn⟩
  · have hid : earlier.id = license.id := (hlinked.indexed hindexed).1.id_eq hearlier
    obtain ⟨hinorder, hle, e', he', first, hissues, hcontinues, hissued⟩ :=
      hbefore earlier (hid.symm ▸ hearlier)
    obtain ⟨hafter, hnow⟩ := h.inOrder_of_changes hindexed hsplit hpast hinorder hle hchanges
    have hsame := hchanges.continues hle
    refine ⟨hafter, hnow, e', he', first, hissues, hcontinues.trans hsame, ?_⟩
    rw [hsame.issuedAt_eq, hsame.createdAt_eq]
    exact hissued
  · exact h.inOrder_of_create hsplit hunknown hstored hturn

/-- **What was stored at some time is stored ever after**, as the same license. -/
theorem Sound.exists_continuing (h : c.Sound admits x) (hempty : x.stores.licenses = .empty)
    (hsplit : c.events = past ++ e :: future)
    (hstored : e.before.stores.licenses.byId.get? license.id = some license) :
    ∃ current, c.stores.licenses.byId.get? license.id = some current ∧
      license.Continues current := by
  obtain ⟨-, hanswered, hfuture⟩ := Linked.append_cons_iff.1 (hsplit ▸ h.linked)
  -- One event, whether it is this or a later one.
  have hstep : ∀ {other : Event}, other ∈ c.events → other.Answered →
      (∃ earlier, other.before.stores.licenses.byId.get? license.id = some earlier ∧
        license.Continues earlier) →
      ∃ later, other.after.stores.licenses.byId.get? license.id = some later ∧
        license.Continues later := by
    rintro other hother hanswered ⟨earlier, hearlier, hcontinues⟩
    rw [← hcontinues.id_eq] at hearlier ⊢
    obtain ⟨later, hlater, hchanges⟩ := hanswered.changes hearlier
    have hle := (((h.inOrder hempty).2 other hother) earlier hearlier).2.1
    exact ⟨later, hlater, hcontinues.trans (hchanges.continues hle)⟩
  have hfirst := hstep (hsplit ▸ by simp) hanswered ⟨license, hstored, .refl license⟩
  refine (hfuture.invariant (P := fun y ↦ ∃ later,
    y.stores.licenses.byId.get? license.id = some later ∧ license.Continues later) hfirst
    (fun hy hwaits ↦ hwaits.1 ▸ hy) ?_).1
  rintro earlier other later rfl hother - hbefore
  exact hstep (hsplit ▸ by simp) hother hbefore

/-- **The whole life of a license.** Take an empty license store, and let anything be demanded in
any order, fail or be lost. Then at any moment:

* the record of a stored license is in order: type and product are not blank, metadata are missing
  or an object, and it was touched no earlier than it was created;
* the license goes back to one that was issued, with the same identifier, key, and times of creation
  and issue; it counts as issued exactly if it started out active, from its creation on;
* what was stored before some event is stored after it and ever after as the same license, touched
  no earlier, and its status is as it was unless the event is a write of a status, by the operator,
  a sweep or a task that expires. -/
theorem Reached.lives (hempty : x.stores.licenses = .empty) (hc : Reached admits x c) :
    (∀ license ∈ c.stores.licenses.licenses, license.InOrder ∧ license.Stems c.events) ∧
    ∀ past e future, c.events = past ++ e :: future →
      ∀ license ∈ e.before.stores.licenses.licenses,
        (∃ after ∈ e.after.stores.licenses.licenses, license.Continues after ∧
          (after.status = license.status ∨ e.Assigns license.id after.status ∨
            after.status = .expired ∧ e.Expires license.id)) ∧
        ∃ current ∈ c.stores.licenses.licenses, license.Continues current := by
  have h := hc.sound
  have hindexed : x.stores.licenses.Indexed := hempty ▸ LicenseStore.indexed_empty
  have hlicenses := (h.linked.indexed hindexed).1
  obtain ⟨hnow, hbefore⟩ := h.inOrder hempty
  constructor
  · intro license hmem
    obtain ⟨hinorder, -, hstems⟩ := hnow license (hlicenses.mem_licenses_iff.1 hmem)
    exact ⟨hinorder, hstems⟩
  · intro past e future hsplit license hmem
    obtain ⟨hlinked, hanswered, -⟩ := Linked.append_cons_iff.1 (hsplit ▸ h.linked)
    have hstored := (hlinked.indexed hindexed).1.mem_licenses_iff.1 hmem
    have hle := (hbefore e (hsplit ▸ by simp) license hstored).2.1
    obtain ⟨after, hafter, hchanges⟩ := hanswered.changes hstored
    obtain ⟨current, hcurrent, hcontinues⟩ := h.exists_continuing hempty hsplit hstored
    have hsame := hchanges.continues hle
    have hkept : after ∈ e.after.stores.licenses.licenses :=
      (hlinked.snoc hanswered).indexed hindexed |>.1.mem_licenses_iff.2 (hsame.id_eq.symm ▸ hafter)
    exact ⟨⟨after, hkept, hsame, h.status_cases hsplit hchanges⟩, current,
      hlicenses.mem_licenses_iff.2 (hcontinues.id_eq.symm ▸ hcurrent), hcontinues⟩

/-- A license is issued that is not active yet, and the operator activates it later. -/
def activatedLater : Chronicle :=
  ((((((start { toShared := ⟨.empty, ⟨5⟩⟩ }
    (.demand (.issue ⟨"standard", "app", none, none, none, none, some .pending⟩))).act 0 {}).act 0
    {}).act 0 {}).act 0 {}).start (.demand (.assignStatus default .active))).act 1 {}

/-- A license that is activated later does not count as issued. -/
theorem Reached.lives_activated : Reached (fun _ ↦ True) ⟨.empty, ⟨5⟩⟩ activatedLater ∧
    ∃ license ∈ activatedLater.stores.licenses.licenses, license.status = .active ∧
      license.issuedAt = none ∧ license.InOrder ∧ license.Stems activatedLater.events := by
  have hreached : Reached (fun _ ↦ True) ⟨.empty, ⟨5⟩⟩ activatedLater :=
    (((((Reached.blank.start trivial).act 0 {}).act 0 {}).act 0 {}).act 0 {}).start trivial
      |>.act 1 {}
  obtain ⟨license, hmem, hactive, hissued⟩ : ∃ license ∈ activatedLater.stores.licenses.licenses,
      license.status = .active ∧ license.issuedAt = none :=
    ⟨_, List.mem_of_getElem? (i := 0) rfl, rfl, rfl⟩
  exact ⟨hreached, license, hmem, hactive, hissued, (Reached.lives rfl hreached).1 license hmem⟩

end Chronicle

end Licensing
