import Licensing.Proofs.License.Snapshots
import Licensing.Proofs.License.Sweep
import Licensing.Proofs.License.Verdict

/-!
# Automatic expirations among other writes

A sweep and the task that a validation leaves behind expire a license by its identifier
(`Event.Expires`). Whether to do so is decided on the license as it was listed or looked up; the
write asks for nothing more. What holds in every run is `Chronicle.Reached.expires`: the license was
active when it was read, and overdue by a clock that was read thereafter, and it is still due when
the write comes (`Event.FindsDue`) unless an operator has revoked or renewed it in the meantime
(`Event.Reprieves`). The last condition is needed: a revocation that falls between the reading and
the write is lost (`Chronicle.not_forall_findsDue`).

Nothing else sets a status but the operator.

The main result rests on where an expiration comes from (`Sound.glimpse_of_expires`): a validation
for a task and a listing for a sweep, each of them a reading of the license and then of the clock.
From the reading to the write it is an induction on the events in between, none of which takes a
license back from being due but one that reprieves it (`Sound.due_or_reprieves`).
-/

namespace Licensing

/-- The license is stored, and active and past its expiry, or expired already. -/
def LicenseStore.Due (store : LicenseStore) (id : Uuid) (now : Instant) : Prop :=
  ∃ license, store.byId.get? id = some license ∧
    (license.status = .active ∧ license.isExpiredAt now = true ∨ license.status = .expired)

/-- What is due stays due as time goes by. -/
theorem LicenseStore.Due.mono {store : LicenseStore} {id : Uuid} {now later : Instant}
    (h : store.Due id now) (hle : now ≤ later) : store.Due id later := by
  obtain ⟨license, hstored, ⟨hactive, hpast⟩ | hexpired⟩ := h
  · exact ⟨license, hstored, .inl ⟨hactive, License.isExpiredAt_mono hle hpast⟩⟩
  · exact ⟨license, hstored, .inr hexpired⟩

namespace Event

/-- A license is expired automatically, and the write goes through. -/
inductive Expires (e : Event) (id : Uuid) : Prop
  | task {parent : Nat} (horigin : e.origin = .task (.expire id) parent)
      (hturn : e.turn = ⟨.store (.updateStatus id .expired), .ok ()⟩)
  | sweep {most limit : Nat} {trigger : Sweep.Trigger}
      (horigin : e.origin = .demand (.sweep most limit trigger))
      (hturn : e.turn = ⟨.store (.updateStatus id .expired), .ok ()⟩)

/-- An operator sets the status of a license, and the write goes through. -/
def Assigns (e : Event) (id : Uuid) (status : Status) : Prop :=
  e.origin = .demand (.assignStatus id status) ∧
    e.turn = ⟨.store (.updateStatus id status), .ok ()⟩

/-- An operator writes to a license, and the write goes through. -/
inductive Overrides (e : Event) (id : Uuid) : Prop
  | assigns {status : Status} (h : e.Assigns id status)
  | amends {amendment : Amendment} {edit stored : License}
      (horigin : e.origin = .demand (.amend id amendment))
      (hturn : e.turn = ⟨.store (.update edit), .ok stored⟩)

/-- An operator revokes or renews a license that was due at some time: by its write the license is
due at that time no more. -/
structure Reprieves (e : Event) (id : Uuid) (now : Instant) : Prop where
  overrides : e.Overrides id
  due : e.before.stores.licenses.Due id now
  spared : ¬ e.after.stores.licenses.Due id now

/-- The license is due just before the event. -/
def FindsDue (e : Event) (id : Uuid) : Prop := e.before.stores.licenses.Due id e.before.now

end Event

namespace Chronicle

variable {admits : Demand → Prop} {x : Shared} {c : Chronicle} {past future : List Event}
  {e : Event} {id : Uuid}

/-! ### Who sets a status -/

/-- **Only the operator and automatic expirations set a status.** -/
theorem Sound.assigns_or_expires (h : c.Sound admits x) (hsplit : c.events = past ++ e :: future)
    {status : Status} (hturn : e.turn = ⟨.store (.updateStatus id status), .ok ()⟩) :
    e.Assigns id status ∨ status = .expired ∧ e.Expires id := by
  have hcall : e.turn.1 = .store (.updateStatus id status) := congrArg Sigma.fst hturn
  rcases ((h.proper hsplit).writes hcall rfl).updateStatus_cases with horigin | ⟨rfl, hexpires⟩
  · exact .inl ⟨horigin, hturn⟩
  · refine .inr ⟨rfl, ?_⟩
    rcases hexpires with ⟨_, _, _, _, horigin, -⟩ | ⟨_, horigin⟩
    · exact .sweep horigin hturn
    · exact .task horigin hturn

/-- **A status is kept**, unless the operator sets it or the license is expired automatically. -/
theorem Sound.status_cases (h : c.Sound admits x) (hsplit : c.events = past ++ e :: future)
    {license after : License} (hchanges : e.Changes license after) :
    after.status = license.status ∨ e.Assigns license.id after.status ∨
      after.status = .expired ∧ e.Expires license.id := by
  cases hchanges with
  | same => exact .inl rfl
  | status hturn => exact .inr (h.assigns_or_expires hsplit hturn)
  | metadata => exact .inl rfl
  | edit => exact .inl rfl

/-! ### What an expiration goes back to -/

/-- What a task is to expire was found active and overdue by the validation that left the task
behind. -/
theorem Sound.glimpse_of_expire (h : c.Sound admits x) (hsplit : c.events = past ++ e :: future)
    {parent : Nat} (horigin : e.origin = .task (.expire id) parent) :
    ∃ license now before look since, Glimpse past e.source license now before look since ∧
      license.id = id ∧ license.status = .active ∧ license.isExpiredAt now = true := by
  obtain ⟨request, license, now, before, look, since, hglimpse, -, -, hfollows⟩ :=
    h.glimpse_of_task hsplit horigin nofun
  rw [followUp?_some] at hfollows
  split at hfollows
  · next hexpired =>
    cases hfollows
    have hpast := (License.fault?_eq_expired_iff hexpired.2).1 hexpired.1
    exact ⟨license, now, before, look, since, hglimpse, rfl, hexpired.2, hpast.2⟩
  · split at hfollows <;> cases hfollows

/-- What a sweep expires was on a page that it had listed, and a sweep lists nothing but active
licenses. -/
theorem Sound.glimpse_of_sweep (h : c.Sound admits x) (hsplit : c.events = past ++ e :: future)
    {most limit : Nat} {trigger : Sweep.Trigger}
    (horigin : e.origin = .demand (.sweep most limit trigger)) {license : License}
    (hfound : Sweep.Found (turnsOf e.thread past) license) :
    ∃ now before look since, Glimpse past e.source license now before look since ∧
      license.status = .active ∧ license.isExpiredAt now = true := by
  have hsource : e.source = e.thread := by rw [Event.source, horigin]
  obtain ⟨_, _, page, now, _, hturns, ⟨limit, offset, rfl⟩, hmem, hpast⟩ := hfound
  obtain ⟨before, look, between, read, rest, rfl, ⟨hlook, hlisted⟩, hread, hclock⟩ :=
    exists_pair_of_turnsOf_eq hturns
  have hglimpse : Glimpse (before ++ look :: (between ++ read :: rest)) e.source license now
      before look (between ++ read :: rest) :=
    ⟨rfl, hlook.trans hsource.symm, hlisted ▸ .listed hmem, read, by simp,
      hread.trans hsource.symm, hclock⟩
  have hactive : license.status = .active := by
    rw [List.append_assoc] at hsplit
    have hanswered := (Linked.append_cons_iff.1 (hsplit ▸ h.linked)).2.1
    have hpage := Except.ok.inj (congrArg Prod.fst (hanswered.answer_eq hlisted))
    rw [← hpage] at hmem
    exact (Sweep.mem_listed hmem).2
  exact ⟨now, before, look, _, hglimpse, hactive, hpast⟩

/-- **What is expired automatically was active when it was read**, and overdue by a clock that was
read thereafter. -/
theorem Sound.glimpse_of_expires (h : c.Sound admits x) (hsplit : c.events = past ++ e :: future)
    (hexpires : e.Expires id) :
    ∃ license now before look since, Glimpse past e.source license now before look since ∧
      license.id = id ∧ license.status = .active ∧ license.isExpiredAt now = true := by
  cases hexpires with
  | task horigin hturn => exact h.glimpse_of_expire hsplit horigin
  | sweep horigin hturn =>
    have hcall : e.turn.1 = .store (.updateStatus id .expired) := congrArg Sigma.fst hturn
    rcases ((h.proper hsplit).writes hcall rfl).updateStatus_cases with
      hother | ⟨-, ⟨_, _, _, license, -, hfound, hid⟩ | ⟨_, hother⟩⟩
    · cases horigin.symm.trans hother
    · obtain ⟨now, before, look, since, hglimpse, hactive, hpast⟩ :=
        h.glimpse_of_sweep hsplit horigin hfound
      exact ⟨license, now, before, look, since, hglimpse, hid, hactive, hpast⟩
    · cases horigin.symm.trans hother

/-! ### What an expiration finds -/

/-- Only an operator takes a license back from being due. -/
theorem Sound.due_or_reprieves (h : c.Sound admits x) (hindexed : x.stores.licenses.Indexed)
    (hsplit : c.events = past ++ e :: future) {now : Instant}
    (hdue : e.before.stores.licenses.Due id now) :
    e.after.stores.licenses.Due id now ∨ e.Reprieves id now := by
  obtain ⟨hlinked, hanswered, -⟩ := Linked.append_cons_iff.1 (hsplit ▸ h.linked)
  refine or_iff_not_imp_left.2 fun hundue ↦ ⟨?_, hdue, hundue⟩
  obtain ⟨license, hstored, hstate⟩ := hdue
  obtain rfl : license.id = id := (hlinked.indexed hindexed).1.id_eq hstored
  obtain ⟨after, hafter, hchanges⟩ := hanswered.changes hstored
  cases hchanges with
  | same => exact absurd ⟨license, hafter, hstate⟩ hundue
  | status hturn =>
    rcases h.assigns_or_expires hsplit hturn with hassigns | ⟨rfl, -⟩
    · exact .assigns hassigns
    · exact absurd ⟨_, hafter, .inr rfl⟩ hundue
  | metadata => exact absurd ⟨_, hafter, hstate⟩ hundue
  | edit hturn hedit =>
    obtain ⟨_, seen, _, _, _, -, -, -, horigin, rfl, -⟩ :=
      h.look_of_update hindexed hsplit (congrArg Sigma.fst hturn)
    have hid : seen.id = license.id := hedit
    exact .amends (hid ▸ horigin) hturn

/-- What was due when the clock was read is due at the write, where no operator takes it back. -/
theorem Sound.findsDue_of_glimpse (h : c.Sound admits x) (hindexed : x.stores.licenses.Indexed)
    (hsplit : c.events = past ++ e :: future) {license : License} {now : Instant}
    {before since : List Event} {look : Event} {k : Nat}
    (hglimpse : Glimpse past k license now before look since) (hactive : license.status = .active)
    (hpast : license.isExpiredAt now = true)
    (hquiet : ∀ other ∈ since, ¬ other.Reprieves license.id now) : e.FindsDue license.id := by
  have hlinked : Linked x past e.before := (Linked.append_cons_iff.1 (hsplit ▸ h.linked)).1
  have hnow : now ≤ e.before.now := hglimpse.now_le hlinked
  obtain ⟨rfl, -, hshows, -⟩ := hglimpse
  obtain ⟨hbefore, hlook, hsince⟩ := Linked.append_cons_iff.1 hlinked
  have hfirst : look.after.stores.licenses.Due license.id now :=
    ⟨license, hlook.stored_after_shows (hbefore.indexed hindexed).1 hshows,
      .inl ⟨hactive, hpast⟩⟩
  -- From the lookup on, every event keeps the license due by the clock that was read.
  have hdue : e.before.stores.licenses.Due license.id now := by
    refine (hsince.invariant (P := fun y ↦ y.stores.licenses.Due license.id now) hfirst
      (fun hy hwaits ↦ hwaits.1 ▸ hy) ?_).1
    rintro earlier other later rfl - - hdue
    have hother : c.events = (before ++ look :: earlier) ++ other :: (later ++ e :: future) := by
      rw [hsplit]
      simp
    exact (h.due_or_reprieves hindexed hother hdue).resolve_right (hquiet other (by simp))
  exact hdue.mono hnow

/-- **Automatic expirations in every run.** Whatever is demanded, and whatever fails or is lost: a
stored license keeps its status through every event, unless the operator sets it or the license is
expired automatically. What is expired automatically was stored and active when it was looked up or
listed, and was overdue by a clock that was read between that and the write. The write finds it due,
unless an operator has revoked or renewed it in the meantime. -/
theorem Reached.expires (hindexed : x.stores.licenses.Indexed) (hc : Reached admits x c)
    (hsplit : c.events = past ++ e :: future) (id : Uuid) :
    (∀ license, e.before.stores.licenses.byId.get? id = some license →
      ∃ after, e.after.stores.licenses.byId.get? id = some after ∧
        (after.status = license.status ∨ e.Assigns id after.status ∨
          after.status = .expired ∧ e.Expires id)) ∧
    (e.Expires id → ∃ license now before look since,
      Glimpse past e.source license now before look since ∧
      look.before.stores.licenses.byId.get? id = some license ∧
      license.status = .active ∧ license.isExpiredAt now = true ∧ now ≤ e.before.now ∧
      ((∀ other ∈ since, ¬ other.Reprieves id now) → e.FindsDue id)) := by
  have h := hc.sound
  obtain ⟨hlinked, hanswered, -⟩ := Linked.append_cons_iff.1 (hsplit ▸ h.linked)
  constructor
  · intro license hstored
    obtain rfl : license.id = id := (hlinked.indexed hindexed).1.id_eq hstored
    obtain ⟨after, hafter, hchanges⟩ := hanswered.changes hstored
    exact ⟨after, hafter, h.status_cases hsplit hchanges⟩
  · intro hexpires
    obtain ⟨license, now, before, look, since, hglimpse, rfl, hactive, hpast⟩ :=
      h.glimpse_of_expires hsplit hexpires
    have hstored := hlinked.stored_of_shows hindexed hglimpse.look_mem hglimpse.shows
    exact ⟨license, now, before, look, since, hglimpse, hstored, hactive, hpast,
      hglimpse.now_le hlinked, h.findsDue_of_glimpse hindexed hsplit hglimpse hactive hpast⟩

/-! ### A revocation in between -/

/-- A store with an overdue license that nobody has come to expire yet. -/
def overdueStore : Shared where
  stores := ⟨.single
    { License.fresh ⟨0⟩ ⟨0⟩ "K" "standard" "app" .active with expiresAt := some ⟨3⟩ }, .empty⟩
  now := ⟨5⟩

/-- The license is validated, and the task that is to expire it is still to run. -/
def overdueSeen : Chronicle :=
  (((start { toShared := overdueStore } (.demand (.validate ⟨"K", "app", none⟩))).act 0 {}).act 0
    {}).act 0 {}

/-- The operator revokes the license before the task runs. -/
def overdueRevoked : Chronicle :=
  (overdueSeen.start (.demand (.assignStatus ⟨0⟩ .revoked))).act 2 {}

theorem reached_overdueSeen : Reached (fun _ ↦ True) overdueStore overdueSeen :=
  (((Reached.blank.start trivial).act 0 {}).act 0 {}).act 0 {}

/-- Left alone, the task finds the license due. -/
theorem Reached.expires_overdue : overdueStore.stores.licenses.Indexed ∧
    Reached (fun _ ↦ True) overdueStore (overdueSeen.act 1 {}) ∧
    ∃ past e, (overdueSeen.act 1 {}).events = past ++ e :: [] ∧ e.Expires ⟨0⟩ ∧
      e.FindsDue ⟨0⟩ := by
  have hindexed : overdueStore.stores.licenses.Indexed := LicenseStore.indexed_single _
  have hreached := reached_overdueSeen.act 1 {}
  obtain ⟨past, e, hsplit, horigins, hexpires⟩ : ∃ past e,
      (overdueSeen.act 1 {}).events = past ++ e :: [] ∧
      (∀ other ∈ past, other.origin = .demand (.validate ⟨"K", "app", none⟩)) ∧
      e.Expires ⟨0⟩ :=
    ⟨[_, _, _], _, rfl, by simp, .task rfl rfl⟩
  obtain ⟨license, now, before, look, since, hglimpse, -, -, -, -, hdue⟩ :=
    (Reached.expires hindexed hreached hsplit ⟨0⟩).2 hexpires
  refine ⟨hindexed, hreached, past, e, hsplit, hexpires, hdue fun other hother hreprieves ↦ ?_⟩
  have horigin := horigins other (by rw [hglimpse.split]; simp [hother])
  cases hreprieves.overrides with
  | assigns h => cases horigin.symm.trans h.1
  | amends h => cases horigin.symm.trans h

/-- **Not every expiration finds the license due**: the task sets a license to expired that the
operator has revoked since the validation looked it up. -/
theorem not_forall_findsDue : ¬ ∀ (x : Shared) (c : Chronicle), x.stores.licenses.Indexed →
    Reached (fun _ ↦ True) x c → ∀ e ∈ c.events, ∀ id, e.Expires id → e.FindsDue id := by
  intro hall
  obtain ⟨e, hmem, hexpires, hrevoked⟩ : ∃ e ∈ (overdueRevoked.act 1 {}).events, e.Expires ⟨0⟩ ∧
      (e.before.stores.licenses.byId.get? ⟨0⟩).map (·.status) = some .revoked :=
    ⟨_, List.mem_of_getElem? (i := 4) rfl, .task rfl rfl, rfl⟩
  obtain ⟨license, hstored, hdue⟩ := hall overdueStore _ (LicenseStore.indexed_single _)
    (((reached_overdueSeen.start trivial).act 2 {}).act 1 {}) e hmem ⟨0⟩ hexpires
  have hstatus : license.status = .revoked := by
    rw [hstored] at hrevoked
    exact Option.some.inj hrevoked
  rw [hstatus] at hdue
  rcases hdue with ⟨hactive, -⟩ | hexpired
  · cases hactive
  · cases hexpired

end Chronicle

end Licensing
