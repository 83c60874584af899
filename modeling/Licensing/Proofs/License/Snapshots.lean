import Licensing.Proofs.Listing.Order
import Licensing.Proofs.System.Calls
import Licensing.Proofs.System.Conduct

/-!
# What threads see and do of licenses

Every decision is taken on a license as it was read, and what follows from it is written later. The
two halves of that, on the record: what an effect shows of a license is what is stored at that
moment (`Event.Answered.stored_of_shows`), and what an effect makes of a stored license is one of
four things (`Event.Answered.changes`), each by a call that went through.

A write goes back to a reading by the same thread, or by the thread that left the task behind
(`Event.source`): a task follows from a license that its validation has looked up, by a clock that
was read thereafter (`Chronicle.Sound.glimpse_of_task`), and an amendment is one of a license that
it has looked up itself (`Chronicle.Sound.look_of_update`).
-/

namespace Licensing

/-! ### Seeing -/

/-- The license was part of the answer. -/
inductive Turn.Shows (license : License) : Turn → Prop
  | byKey {key : String} : Shows license ⟨.store (.findByKey key), .ok (some license)⟩
  | byId {id : Uuid} : Shows license ⟨.store (.findById id), .ok (some license)⟩
  | listed {query : ListQuery} {page : Page} (h : license ∈ page.items) :
      Shows license ⟨.store (.list query), .ok page⟩

namespace Event.Answered

variable {e : Event} {license : License}

/-- **What is shown is what is stored.** -/
theorem stored_of_shows (h : e.Answered) (hindexed : e.before.stores.licenses.Indexed)
    (hshows : e.turn.Shows license) :
    e.before.stores.licenses.byId.get? license.id = some license := by
  rcases e with ⟨k, origin, before, turn, after⟩
  cases hshows with
  | byKey =>
    have hfound := congrArg Prod.fst (h.answer_eq rfl)
    exact hindexed.mem_licenses_iff.1 (hindexed.findByKey_eq_some_iff.1 (Except.ok.inj hfound)).1
  | @byId id =>
    have hfound : before.stores.licenses.byId.get? id = some license :=
      Except.ok.inj (congrArg Prod.fst (h.answer_eq rfl))
    show before.stores.licenses.byId.get? license.id = some license
    rw [hindexed.id_eq hfound]
    exact hfound
  | listed hmem =>
    have hpage := Except.ok.inj (congrArg Prod.fst (h.answer_eq rfl))
    rw [← hpage] at hmem
    exact hindexed.mem_licenses_iff.1 (ListQuery.mem_of_mem_page hmem).1

end Event.Answered

/-! ### Changing -/

/-- Amending a license that is stored goes through. -/
theorem Stores.answer_update_of_stored {stores : Stores} {edit license : License}
    (h : stores.licenses.byId.get? edit.id = some license) (now : Instant) :
    (stores.answer now (.update edit)).1 = .ok (LicenseStore.edited edit now license) := by
  have hcontains : stores.licenses.byId.contains edit.id = true := by simp [Table.contains, h]
  rw [stores.answer_of_change now (.update edit) edit.id _ _ rfl, if_pos hcontains]
  simp only [LicenseStore.findById_changed h]

/-- What an event makes of a stored license. -/
inductive Event.Changes (e : Event) (license : License) : License → Prop
  | same : Changes e license license
  | status {status : Status} (h : e.turn = ⟨.store (.updateStatus license.id status), .ok ()⟩) :
      Changes e license (license.withStatus status e.before.now)
  | metadata {metadata : Json}
      (h : e.turn = ⟨.store (.updateMetadata license.id metadata), .ok ()⟩) :
      Changes e license (license.withMetadata (some metadata) e.before.now)
  | edit {edit stored : License} (h : e.turn = ⟨.store (.update edit), .ok stored⟩)
      (hid : edit.id = license.id) :
      Changes e license (LicenseStore.edited edit e.before.now license)

/-- To be shown a license is not to change it. -/
theorem Event.Changes.eq_of_shows {e : Event} {license after shown : License}
    (h : e.Changes license after) (hshows : e.turn.Shows shown) : after = license := by
  cases h with
  | same => rfl
  | status hturn | metadata hturn | edit hturn =>
    rw [hturn] at hshows
    cases hshows

/-- Changing the license of one identifier, as seen from another. -/
private theorem exists_changes {e : Event} {store : LicenseStore} {license : License}
    {target : Uuid} {f : License → License}
    (hstored : store.byId.get? license.id = some license)
    (hf : license.id = target → e.Changes license (f license)) :
    ∃ after, (store.changed target f).byId.get? license.id = some after ∧
      e.Changes license after := by
  rw [LicenseStore.get?_changed]
  split
  · next hid => exact ⟨f license, by rw [hstored]; rfl, hf hid⟩
  · exact ⟨license, hstored, .same⟩

/-- **A stored license stays stored, and an event makes one of four things of it.** -/
theorem Event.Answered.changes {e : Event} {license : License} (h : e.Answered)
    (hstored : e.before.stores.licenses.byId.get? license.id = some license) :
    ∃ after, e.after.stores.licenses.byId.get? license.id = some after ∧
      e.Changes license after := by
  rcases h.cases with hsame | ⟨call, hturn, hafter⟩
  · rw [hsame]
    exact ⟨license, hstored, .same⟩
  have hcontains : e.before.stores.licenses.byId.contains license.id = true := by
    simp [Table.contains, hstored]
  have hstep := e.before.stores.step_answer e.before.now call
  rw [hafter]
  generalize (e.before.stores.answer e.before.now call).2.licenses = licenses at hstep ⊢
  cases hstep with
  | same => exact ⟨license, hstored, .same⟩
  | create other hid =>
    refine ⟨license, ?_, .same⟩
    rw [LicenseStore.added, Table.get?_insert, if_neg, hstored]
    rintro heq
    rw [heq, hid] at hstored
    cases hstored
  | updateStatus id status =>
    refine exists_changes hstored ?_
    rintro rfl
    rw [Stores.answer_updateStatus, if_pos hcontains] at hturn
    exact .status hturn
  | updateMetadata id metadata =>
    refine exists_changes hstored ?_
    rintro rfl
    rw [Stores.answer_updateMetadata, if_pos hcontains] at hturn
    exact .metadata hturn
  | update edit =>
    refine exists_changes hstored fun hid ↦ ?_
    rw [Stores.answer_update_of_stored (hid ▸ hstored)] at hturn
    exact .edit hturn hid.symm

/-- **An edit that went through** has found the license, and answers with what it has made of it. -/
theorem Event.Answered.edited {e : Event} {edit stored : License} (h : e.Answered)
    (hturn : e.turn = ⟨.store (.update edit), .ok stored⟩) :
    ∃ current, e.before.stores.licenses.byId.get? edit.id = some current ∧
      stored = LicenseStore.edited edit e.before.now current ∧
      e.after.stores.licenses.byId.get? edit.id = some stored := by
  have hanswer := h.answer_eq hturn
  rcases hcurrent : e.before.stores.licenses.byId.get? edit.id with - | current
  · have hcontains : e.before.stores.licenses.byId.contains edit.id = false := by
      simp [Table.contains, hcurrent]
    rw [Stores.answer_of_change _ _ (.update edit) edit.id _ _ rfl, hcontains] at hanswer
    cases hanswer
  · have hok := congrArg Prod.fst hanswer
    rw [Stores.answer_update_of_stored hcurrent] at hok
    have hstored : LicenseStore.edited edit e.before.now current = stored := Except.ok.inj hok
    have hafter := Stores.licenses_answer_update e.before.stores e.before.now edit
    rw [hanswer] at hafter
    refine ⟨current, rfl, hstored.symm, ?_⟩
    rw [hafter, ← hstored]
    exact LicenseStore.findById_changed hcurrent _

/-- **Every event keeps the index.** -/
theorem Linked.indexed {x y : Shared} {events : List Event} (h : Linked x events y)
    (hx : x.stores.licenses.Indexed) :
    y.stores.licenses.Indexed ∧ ∀ e ∈ events, e.before.stores.licenses.Indexed := by
  refine h.invariant (P := fun z ↦ z.stores.licenses.Indexed) hx
    (fun hy hwaits ↦ hwaits.1 ▸ hy) fun _ hanswered _ hbefore ↦ ?_
  rcases hanswered.cases with hsame | ⟨call, -, hafter⟩
  · rw [hsame]
    exact hbefore
  · rw [hafter]
    exact Stores.indexed_answer _ _ hbefore call

/-- What was shown in a run was stored at that moment. -/
theorem Linked.stored_of_shows {x y : Shared} {events : List Event} (h : Linked x events y)
    (hx : x.stores.licenses.Indexed) {look : Event} (hlook : look ∈ events) {license : License}
    (hshows : look.turn.Shows license) :
    look.before.stores.licenses.byId.get? license.id = some license := by
  have hindexed := (h.indexed hx).2 look hlook
  obtain ⟨past, future, rfl⟩ := List.append_of_mem hlook
  exact (Linked.append_cons_iff.1 h).2.1.stored_of_shows hindexed hshows

/-! ### Looking back -/

/-- A thread that was shown a license leaves it as it was. -/
theorem Event.Answered.stored_after_shows {e : Event} {license : License} (h : e.Answered)
    (hindexed : e.before.stores.licenses.Indexed) (hshows : e.turn.Shows license) :
    e.after.stores.licenses.byId.get? license.id = some license := by
  obtain ⟨after, hafter, hchanges⟩ := h.changes (h.stored_of_shows hindexed hshows)
  rwa [hchanges.eq_of_shows hshows] at hafter

/-- A thread was shown a license, and has read the clock since. -/
structure Glimpse (past : List Event) (k : Nat) (license : License) (now : Instant)
    (before : List Event) (look : Event) (since : List Event) : Prop where
  split : past = before ++ look :: since
  thread : look.thread = k
  shows : look.turn.Shows license
  reads : ∃ read ∈ since, read.thread = k ∧ read.turn = ⟨.clock, now⟩

theorem Glimpse.append {past before since : List Event} {k : Nat} {license : License}
    {now : Instant} {look : Event} (h : Glimpse past k license now before look since)
    (more : List Event) : Glimpse (past ++ more) k license now before look (since ++ more) where
  split := by rw [h.split, List.append_assoc, List.cons_append]
  thread := h.thread
  shows := h.shows
  reads := by
    obtain ⟨read, hmem, hread⟩ := h.reads
    exact ⟨read, List.mem_append_left more hmem, hread⟩

theorem Glimpse.look_mem {past before since : List Event} {k : Nat} {license : License}
    {now : Instant} {look : Event} (h : Glimpse past k license now before look since) :
    look ∈ past := by
  rw [h.split]
  simp

/-- What was read on the clock is past. -/
theorem Glimpse.now_le {past before since : List Event} {k : Nat} {license : License}
    {now : Instant} {look : Event} (h : Glimpse past k license now before look since)
    {x y : Shared} (hlinked : Linked x past y) : now ≤ y.now := by
  obtain ⟨read, hmem, -, hclock⟩ := h.reads
  have hread : read ∈ past := h.split ▸ List.mem_append_right before (List.mem_cons_of_mem _ hmem)
  obtain ⟨earlier, later, rfl⟩ := List.append_of_mem hread
  rw [← (Linked.append_cons_iff.1 hlinked).2.1.clock_eq hclock]
  exact hlinked.now_le_of_mem hread

namespace Chronicle.Sound

variable {admits : Demand → Prop} {x : Shared} {c : Chronicle} {past future : List Event}
  {e : Event}

/-- **A task goes back to a validation**: it follows from the license that was found, by the clock
that was read thereafter. -/
theorem glimpse_of_task (h : c.Sound admits x) (hsplit : c.events = past ++ e :: future)
    {work : Task} {parent : Nat} (horigin : e.origin = .task work parent)
    (hwork : ∀ id, work ≠ .noteUse id) :
    ∃ request license now before look since, Glimpse past e.source license now before look since ∧
      look.origin = .demand (.validate request) ∧
      look.turn = ⟨.store (.findByKey request.key), .ok (some license)⟩ ∧
      followUp? (some license) request now = some work := by
  have hsource : e.source = parent := by rw [Event.source, horigin]
  have hinorder := (h.proper hsplit).origin
  rw [horigin] at hinorder
  obtain ⟨submit, hmem, hparent, hturn⟩ := hinorder
  obtain ⟨earlier, later, rfl⟩ := List.append_of_mem hmem
  rw [List.append_assoc, List.cons_append] at hsplit
  have hproper := h.proper hsplit
  have hsubmits : submit.origin.Submits (turnsOf submit.thread earlier) work :=
    hproper.submits (congrArg Sigma.fst hturn)
  obtain ⟨request, license, now, hvalidate, hturns, hfollows⟩ := hsubmits.followUp hwork
  obtain ⟨before, look, between, read, rest, rfl, ⟨hlook, hfound⟩, hread, hclock⟩ :=
    exists_pair_of_turnsOf_eq (hturns.trans (List.nil_append _).symm)
  have hglimpse : Glimpse (before ++ look :: (between ++ read :: rest)) e.source license now
      before look (between ++ read :: rest) :=
    ⟨rfl, hlook.trans (hparent.trans hsource.symm), hfound ▸ .byKey, read, by simp,
      hread.trans (hparent.trans hsource.symm), hclock⟩
  exact ⟨request, license, now, before, look, _, hglimpse.append (submit :: later),
    (hproper.same look (by simp) hlook).trans hvalidate, hfound, hfollows⟩

/-- **An amendment goes back to a lookup** of its own. -/
theorem look_of_update (h : c.Sound admits x) (hindexed : x.stores.licenses.Indexed)
    (hsplit : c.events = past ++ e :: future) {edit : License}
    (hcall : e.turn.1 = .store (.update edit)) :
    ∃ amendment license before look since, past = before ++ look :: since ∧
      look.thread = e.source ∧ look.turn = ⟨.store (.findById license.id), .ok (some license)⟩ ∧
      e.origin = .demand (.amend license.id amendment) ∧ edit = amendment.apply license ∧
      amendment.fault? = none := by
  obtain ⟨id, amendment, license, horigin, hturns, hfault, hedit⟩ :=
    ((h.proper hsplit).writes hcall rfl).update_cases
  obtain ⟨before, look, since, rfl, hlook, hfound, -, -⟩ :=
    exists_of_turnsOf_eq (hturns.trans (List.nil_append _).symm)
  have hsource : e.source = e.thread := by rw [Event.source, horigin]
  rw [List.append_assoc] at hsplit
  obtain ⟨hbefore, hanswered, -⟩ := Linked.append_cons_iff.1 (hsplit ▸ h.linked)
  obtain rfl : license.id = id := (hbefore.indexed hindexed).1.id_eq
    (Except.ok.inj (congrArg Prod.fst (hanswered.answer_eq hfound)))
  exact ⟨amendment, license, before, look, since, rfl, hlook.trans hsource.symm, hfound, horigin,
    hedit, hfault⟩

end Chronicle.Sound

end Licensing
