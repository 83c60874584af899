import Mathlib
import Licensing.Proofs.License.Peers
import Licensing.Proofs.License.Queue

/-!
# A sweep among other writers

A sweep converges even when others write between its calls: what was active and overdue when it
began is not active when it returns, unless a write failed. Removals by others shift the queue under
the offset, so a sweep may well skip licenses; it never skips an overdue one. The reason is the
order of the queue. The offset leaves zero only after a page on which some license is not overdue,
all behind it in the queue are then not overdue either, and of the page itself what is overdue has
been expired (`front_or_converged`). From then on all is done that had to be (`Converged`) and no
peer undoes it. This is the invariant of `meets_pages_retiring`: the offset is zero, or the store
has converged.

The main result, `pass_converges`, rests on this and on the pact of all who may write
(`Pact.retiring_covers`): licenses stay stored, keep their expiry and do not become active again. An
operator who activates a license, or gives it another expiry, does not keep the pact and is not one
of the peers.
-/

namespace Licensing

/-- The license of the identifier is stored and not active. -/
def LicenseStore.Retired (store : LicenseStore) (id : Uuid) : Prop :=
  ∃ license, store.byId.get? id = some license ∧ license.status ≠ .active

theorem LicenseStore.Retired.mono {before after : LicenseStore} {id : Uuid}
    (h : before.Retired id) (hle : before.Retires after) : after.Retired id := by
  obtain ⟨license, hlicense, hstatus⟩ := h
  obtain ⟨later, hlater, -, hactive⟩ := hle id license hlicense
  exact ⟨later, hlater, fun h ↦ hstatus (hactive h)⟩

namespace Sweep

/-- Whoever was active at first and is overdue by a point of time is not active. -/
def Converged (first : LicenseStore) (now : Instant) (store : LicenseStore) : Prop :=
  ∀ license ∈ first.licenses, license.status = .active → license.isExpiredAt now = true →
    store.Retired license.id

/-- It is enough to look at the queue: whoever was active at first and is not in the queue any more
is not active any more. -/
theorem converged_of_queue {first store after : LicenseStore} {since now : Instant}
    (hfirst : first.Indexed) (hstore : store.Indexed) (hfrom : first.Retires store)
    (hle : store.Retires after) (hsince : since ≤ now)
    (hqueue : ∀ license ∈ store.queue, license.isExpiredAt now = true → after.Retired license.id) :
    Converged first since after := by
  intro license hmem hactive hpast
  obtain ⟨current, hcurrent, hexpiry, -⟩ :=
    hfrom license.id license (hfirst.mem_licenses_iff.1 hmem)
  have hid : current.id = license.id := hstore.id_eq hcurrent
  by_cases hstatus : current.status = .active
  · rw [← hid] at hcurrent ⊢
    refine hqueue current
      (LicenseStore.mem_queue.2 ⟨hstore.mem_licenses_iff.2 hcurrent, hstatus⟩) ?_
    rw [License.isExpiredAt_congr hexpiry]
    exact License.isExpiredAt_mono hsince hpast
  · exact LicenseStore.Retired.mono ⟨current, hcurrent, hstatus⟩ hle

theorem Converged.mono {first before after : LicenseStore} {now : Instant}
    (h : Converged first now before) (hle : before.Retires after) : Converged first now after :=
  fun license hmem hactive hpast ↦ (h license hmem hactive hpast).mono hle

/-! ### Writing -/

/-- Attempts that all succeed leave no license active that was to be expired. -/
theorem meets_expireAll_retiring {trigger : Trigger} {licenses : List License} {x : Shared}
    (hstored : ∀ license ∈ licenses, ∃ stored,
      x.stores.licenses.byId.get? license.id = some stored) :
    Pact.retiring.contract.Meets .peers (expireAll trigger licenses)
      (fun turns counts y ↦ Turn.readings turns = [] ∧
        counts.1 + counts.2 = licenses.length ∧ Pact.retiring.Leads x y ∧
        (counts.2 = 0 → ∀ license ∈ licenses, y.stores.licenses.Retired license.id)) x := by
  induction licenses generalizing x with
  | nil =>
    exact ⟨rfl, rfl, Pact.retiring.refl x, fun _ _ hmem ↦ absurd hmem List.not_mem_nil⟩
  | cons license rest ih =>
    refine meets_expireAll_cons.2 fun y ⟨hy, hxy⟩ chance _ ↦ ?_
    have hlater : ∀ {z}, Pact.retiring.Leads x z → ∀ other ∈ rest, ∃ stored,
        z.stores.licenses.byId.get? other.id = some stored := by
      intro z hxz other hother
      obtain ⟨stored, hother⟩ := hstored other (List.mem_cons_of_mem license hother)
      obtain ⟨later, hlater, -⟩ := hxz.2 _ stored hother
      exact ⟨later, hlater⟩
    have hdoes : Pact.retiring.contract.Does y (attempt license)
        (y.perform chance (attempt license)).2 :=
      Pact.retiring_does (attempt_makesNoneActive license) hy trivial
    rcases y.perform_updateStatus chance license.id .expired with ⟨failure, hperform⟩ | hperform
    · simp only [hperform]
      refine ⟨Pact.does_nothing hy rfl, fun z ⟨hz, hyz⟩ _ _ ↦ ⟨Pact.does_nothing hz rfl, ?_⟩⟩
      have hxz := Pact.retiring.trans hxy hyz
      refine (ih (hlater hxz)).mono fun turns counts w ⟨hreadings, hcount, hzw, _⟩ ↦ ?_
      refine ⟨hreadings, ?_, Pact.retiring.trans hxz hzw, nofun⟩
      rw [List.length_cons, ← hcount, Nat.add_assoc]
    · rw [hperform] at hdoes
      simp only [hperform]
      refine ⟨hdoes, ?_⟩
      have hxz := Pact.retiring.trans hxy hdoes.2.1
      refine (ih (hlater hxz)).mono fun turns counts w ⟨hreadings, hcount, hzw, hretired⟩ ↦ ?_
      refine ⟨hreadings, ?_, Pact.retiring.trans hxz hzw, fun hnone ↦ ?_⟩
      · rw [List.length_cons, ← hcount]
        omega
      · intro other hother
        rcases List.mem_cons.1 hother with rfl | hother
        · refine LicenseStore.Retired.mono ?_ hzw.2
          obtain ⟨stored, hlicense⟩ := hstored other List.mem_cons_self
          obtain ⟨later, hlater, -⟩ := hxy.2 _ stored hlicense
          refine ⟨later.withStatus .expired y.now, ?_, nofun⟩
          rw [Shared.licenses_withLicenses, LicenseStore.get?_changed, if_pos rfl, hlater]
          rfl
        · exact hretired hnone other hother

/-! ### One page -/

/-- A page that begins at the front of the queue and expires all that is overdue on it either is
full of overdue licenses, or leaves nobody active who was overdue when it was read. -/
theorem full_or_retired {store after : LicenseStore} {now : Instant} {limit : Nat}
    (hpage : ∀ license ∈ (store.queue.take limit).filter (·.isExpiredAt now),
      after.Retired license.id) :
    (limit ≤ (store.queue.take limit).length ∧
        ((store.queue.take limit).filter (·.isExpiredAt now)).length =
          (store.queue.take limit).length) ∨
      ∀ license ∈ store.queue, license.isExpiredAt now = true → after.Retired license.id := by
  refine Classical.or_iff_not_imp_left.2 fun hnot license hmem hpast ↦ ?_
  rw [← List.take_append_drop limit store.queue, List.mem_append] at hmem
  rcases hmem with hmem | hmem
  · exact hpage license (List.mem_filter.2 ⟨hmem, hpast⟩)
  -- Behind the page: then the page is full, and all on it expire no later.
  · refine absurd ⟨?_, ?_⟩ hnot
    · have hlength : 0 < (store.queue.drop limit).length := List.length_pos_of_mem hmem
      rw [List.length_drop] at hlength
      rw [List.length_take]
      omega
    · refine congrArg List.length (List.filter_eq_self.2 fun earlier hearlier ↦ ?_)
      exact LicenseStore.isExpiredAt_of_before (List.take_append_drop limit store.queue).symm
        hearlier hmem hpast

/-- A full page at the front of the queue of which all were expired: the next begins there too. -/
theorem Progress.after_front {progress : Progress} {limit : Nat} {listed : Page}
    {counts : Nat × Nat} (hoffset : progress.offset = 0) (hfull : limit ≤ listed.items.length)
    (hall : counts.1 = listed.items.length) :
    (progress.after listed counts).offset = 0 ∧ progress.ends limit listed counts = false := by
  have hzero : (progress.after listed counts).offset = 0 := by
    show progress.offset + (listed.items.length - counts.1) = 0
    rw [hoffset, hall, Nat.sub_self]
  refine ⟨hzero, ?_⟩
  rw [Progress.ends, hzero]
  simp [Nat.not_lt.2 hfull]

/-- A page at the front of the queue on which all that is overdue was expired: the sweep goes on
from the front, or has converged. -/
theorem front_or_converged {first store after : LicenseStore} {since now : Instant}
    (hfirst : first.Indexed) (hstore : store.Indexed) (hfrom : first.Retires store)
    (hle : store.Retires after) (hsince : since ≤ now) {progress : Progress} {limit : Nat}
    {counts : Nat × Nat} (hoffset : progress.offset = 0) :
    let listed := store.list (.activeByExpiry limit progress.offset)
    counts.1 = (listed.items.filter (·.isExpiredAt now)).length →
    (∀ license ∈ listed.items.filter (·.isExpiredAt now), after.Retired license.id) →
    ((progress.after listed counts).offset = 0 ∧ progress.ends limit listed counts = false) ∨
      Converged first since after := by
  intro listed hcount hretired
  have hitems : listed.items = store.queue.take limit := by
    show (store.list (.activeByExpiry limit progress.offset)).items = _
    rw [LicenseStore.list_activeByExpiry, hoffset, List.drop_zero]
  rw [hitems] at hcount hretired
  rcases full_or_retired hretired with ⟨hfull, hall⟩ | hall
  · exact .inl (progress.after_front hoffset (hitems ▸ hfull) (by rw [hcount, hall, hitems]))
  · exact .inr (converged_of_queue hfirst hstore hfrom hle hsince hall)

/-- **One page.** If it has no failures and the sweep had converged or begins at the front, then the
sweep has converged after it, or it still begins at the front and goes on. -/
theorem meets_page_retiring {first : LicenseStore} (hfirst : first.Indexed) {limit : Nat}
    {progress : Progress} {x : Shared} (hfrom : first.Retires x.stores.licenses) :
    Pact.retiring.contract.Meets .peers (page limit progress)
      (fun turns result y ↦ ∀ next last, result = .ok (next, last) → ∃ now,
        Turn.readings turns = [now] ∧ x.now ≤ now ∧ Pact.retiring.Leads x y ∧ now ≤ y.now ∧
        (next.report.failed = 0 → progress.report.failed = 0 ∧ ∀ since, since ≤ now →
          (progress.offset = 0 ∨ Converged first since x.stores.licenses) →
          (next.offset = 0 ∧ last = false) ∨ Converged first since y.stores.licenses)) x := by
  refine meets_page.2 fun y ⟨hy, hxy⟩ chance _ ↦ ?_
  rw [Shared.perform_list]
  refine ⟨Pact.does_nothing hy rfl, ?_⟩
  split
  · next listed hlisted =>
    cases (Chance.outcome_eq_ok_iff.1 hlisted).2
    refine fun z ⟨hz, hyz⟩ _ _ ↦ ⟨Pact.does_nothing hz rfl, ?_⟩
    have hstored : ∀ license ∈
        ((y.stores.licenses.list (.activeByExpiry limit progress.offset)).items.filter
          (·.isExpiredAt z.now)),
        ∃ stored, z.stores.licenses.byId.get? license.id = some stored := by
      intro license hlicense
      have hmem := (mem_listed (List.mem_filter.1 hlicense).1).1
      obtain ⟨later, hlater, -⟩ := hyz.2 _ license (hy.mem_licenses_iff.1 hmem)
      exact ⟨later, hlater⟩
    refine (meets_expireAll_retiring hstored).mono ?_
    rintro turns counts w ⟨hreadings, hcount, hzw, hretired⟩ next last heq
    cases heq
    refine ⟨z.now, congrArg _ hreadings, Instant.le_trans hxy.1 hyz.1,
      Pact.retiring.trans hxy (Pact.retiring.trans hyz hzw), hzw.1, fun hfailed ↦ ?_⟩
    obtain ⟨hbefore, hnone⟩ : progress.report.failed = 0 ∧ counts.2 = 0 :=
      Nat.add_eq_zero_iff.1 hfailed
    refine ⟨hbefore, fun since hsince hinv ↦ ?_⟩
    have hyw := Pact.retiring.trans hyz hzw
    rcases hinv with hoffset | hconverged
    · rw [hnone, Nat.add_zero] at hcount
      exact front_or_converged hfirst hy (hfrom.trans hxy.2) hyw.2 hsince hoffset hcount
        (hretired hnone)
    · exact .inr (hconverged.mono (hxy.2.trans hyw.2))
  · nofun

/-! ### All pages -/

/-- **Page after page.** With the readings so far, the invariant is that the next page begins at the
front of the queue, or that the sweep has converged as of the first reading, be it only the next. -/
theorem meets_pages_retiring {first : LicenseStore} (hfirst : first.Indexed) {limit most : Nat}
    {progress : Progress} {x : Shared} {readings : List Instant}
    (hfrom : first.Retires x.stores.licenses)
    (hinv : progress.report.failed = 0 → ∀ now, x.now ≤ now →
      ∀ since ∈ (readings ++ [now]).head?, since ≤ now ∧
        (progress.offset = 0 ∨ Converged first since x.stores.licenses)) :
    Pact.retiring.contract.Meets .peers (pages limit most progress)
      (fun turns result y ↦ ∀ report, result = .ok (some report) → report.failed = 0 →
        progress.report.failed = 0 ∧ ∃ since later,
          readings ++ Turn.readings turns = since :: later ∧
            Converged first since y.stores.licenses) x := by
  induction most generalizing progress x readings with
  | zero => exact fun report heq ↦ nomatch heq
  | succ most ih =>
    refine meets_pages_succ.2 ((meets_page_retiring hfirst hfrom).mono ?_)
    rintro turns (failure | ⟨next, last⟩) y hpage
    · exact fun report heq ↦ nomatch heq
    · obtain ⟨now, hreadings, hxnow, hxy, hynow, hnext⟩ := hpage next last rfl
      -- What counts is the first reading of all, which is this one on the first page.
      obtain ⟨since, later, hhead⟩ : ∃ since later, readings ++ [now] = since :: later := by
        cases readings with
        | nil => exact ⟨now, [], rfl⟩
        | cons since rest => exact ⟨since, rest ++ [now], rfl⟩
      have hsince : next.report.failed = 0 → since ≤ now ∧
          ((next.offset = 0 ∧ last = false) ∨ Converged first since y.stores.licenses) := by
        intro hfailed
        obtain ⟨hbefore, hafter⟩ := hnext hfailed
        obtain ⟨hle, hpast⟩ := hinv hbefore now hxnow since (by rw [hhead]; rfl)
        exact ⟨hle, hafter since hle hpast⟩
      cases last with
      | true =>
        rintro report heq hfailed
        cases heq
        refine ⟨(hnext hfailed).1, since, later, by rw [hreadings, hhead], ?_⟩
        exact (hsince hfailed).2.resolve_left nofun
      | false =>
        have hinv' : next.report.failed = 0 → ∀ at_, y.now ≤ at_ →
            ∀ other ∈ (readings ++ [now] ++ [at_]).head?, other ≤ at_ ∧
              (next.offset = 0 ∨ Converged first other y.stores.licenses) := by
          intro hfailed at_ hat other hother
          rw [hhead] at hother
          cases hother
          obtain ⟨hle, hafter⟩ := hsince hfailed
          exact ⟨Instant.le_trans hle (Instant.le_trans hynow hat), hafter.imp_left And.left⟩
        refine (ih (hfrom.trans hxy.2) hinv').mono fun more result z h report heq hfailed ↦ ?_
        obtain ⟨hbefore, since', later', hsince', hconverged⟩ := h report heq hfailed
        refine ⟨(hnext hbefore).1, since', later', ?_, hconverged⟩
        rw [Turn.readings_append, hreadings, ← List.append_assoc, hsince']

/-- **A sweep converges among other writers.** Take any indexed store and let peers run for any time
before the sweep and between its calls, with any failures and losses. If the sweep returns and its
report has no failures, then whoever was active when it began, with an expiry before the first
reading of its clock, is still stored when it returns, and not active. -/
theorem pass_converges (initial : Stores) (hindexed : initial.licenses.Indexed) (start : Instant)
    {s : System} (hs : Rules.peers.Reaches ⟨⟨initial, start⟩, []⟩ s) (course : Course .peers)
    (most limit : Nat) (trigger : Trigger) {report : Report}
    (hreport : (course.watch (pass most limit trigger) s).value = .ok (some report))
    (hfailed : report.failed = 0) :
    ∃ first later, Turn.readings (course.watch (pass most limit trigger) s).turns = first :: later ∧
      ∀ license ∈ s.stores.licenses.licenses, license.status = .active →
        license.isExpiredAt first = true → ∃ current,
          (course.watch (pass most limit trigger) s).system.stores.licenses.byId.get? license.id =
            some current ∧ current.status ≠ .active := by
  have hstart : Pact.retiring.Kept .peers ⟨⟨initial, start⟩, []⟩ := ⟨hindexed, nofun⟩
  have hkept := (Pact.kept_of_reaches Pact.retiring_covers hs hstart).1
  have hmeets : Pact.retiring.contract.Meets .peers (pass most limit trigger)
      (fun turns result y ↦ ∀ report, result = .ok (some report) → report.failed = 0 →
        ∃ first later, Turn.readings turns = first :: later ∧
          Converged s.stores.licenses first y.stores.licenses) s.toShared := by
    refine meets_pass.2 ?_
    have hbegin : (Progress.start trigger).report.failed = 0 → ∀ now, s.now ≤ now →
        ∀ since ∈ ([] ++ [now]).head?, since ≤ now ∧ ((Progress.start trigger).offset = 0 ∨
          Converged s.stores.licenses since s.stores.licenses) := by
      rintro - now - since ⟨⟩
      exact ⟨Int.le_refl _, .inl rfl⟩
    refine (meets_pages_retiring hkept.holds (.refl _) hbegin).mono ?_
    rintro turns (failure | - | report) y h
    · exact fun report heq ↦ nomatch heq
    · exact fun report heq ↦ nomatch heq
    · refine fun z ⟨hz, hyz⟩ _ _ ↦ ⟨Pact.does_nothing hz rfl, fun other heq hfailed ↦ ?_⟩
      obtain ⟨-, first, later, hreadings, hconverged⟩ := h other heq hfailed
      refine ⟨first, later, ?_, hconverged.mono hyz.2⟩
      rw [Turn.readings_append, show Turn.readings turns = first :: later from hreadings]
      exact List.append_nil _
  exact (Pact.watch_of_keeps Pact.retiring_covers course hkept hmeets).1 report hreport hfailed

/-- What befalls the effects of peers: only amendments, if there were any, would fail. -/
def unamending : Effect → Chance
  | .store (.update _) => { failure := some World.noAnswer }
  | _ => {}

theorem befalls_unamending (x : Shared) (effect : Effect) :
    Rules.peers.Befalls x effect (unamending effect) := by
  cases effect with
  | store call =>
    cases call with
    | update edit => exact nofun
    | _ => trivial
  | _ => trivial

/-- A busy course: once the first page is listed, a license of it is validated; once the clock is
read for the page, what the validation has left behind is done, and the operator revokes another. -/
def busy : Course .peers where
  meanwhile
    | 1, s => s.finish unamending (License.validate ⟨"A", "app", none⟩).job
    | 2, s => (s.finishFirst unamending).finish unamending (License.assignStatus ⟨2⟩ .revoked).job
    | _, s => s
  chance _ _ := unamending
  reaches
    | 0, _ => .refl
    | 1, s => Rules.reaches_finish_of_starts befalls_unamending (.validate _) s
    | 2, s =>
      (Rules.reaches_finishFirst befalls_unamending s).trans
        (Rules.reaches_finish_of_starts befalls_unamending (.assignStatus _ _ (by decide)) _)
    | _ + 3, _ => .refl
  befalls _ := befalls_unamending

/-- Two overdue licenses, and pages of one. -/
def twoOverdue : System where
  stores := ⟨(LicenseStore.single
      { License.fresh ⟨0⟩ ⟨1⟩ "A" "standard" "app" .active with expiresAt := some ⟨3⟩ }).added
    { License.fresh ⟨0⟩ ⟨2⟩ "B" "standard" "app" .active with expiresAt := some ⟨4⟩ }, .empty⟩
  now := ⟨5⟩
  jobs := []

/-- One license of two is expired by a validation before the sweep comes to write it, and the other
is revoked before it comes to its page: the sweep ends early, and neither is active. -/
theorem pass_converges_busy :
    let account := busy.watch (pass 3 1 .startup) twoOverdue
    account.value = .ok (some ⟨.startup, 2, 1, 1, 0⟩) ∧
      account.system.stores.licenses.licenses.map (·.status) = [.expired, .revoked] ∧
      ∀ license ∈ twoOverdue.stores.licenses.licenses, ∃ current,
        account.system.stores.licenses.byId.get? license.id = some current ∧
          current.status ≠ .active := by
  intro account
  have hindexed : twoOverdue.stores.licenses.Indexed :=
    (LicenseStore.indexed_single _).added rfl rfl
  have hstart : Rules.peers.Reaches ⟨⟨twoOverdue.stores, ⟨5⟩⟩, []⟩ twoOverdue := .refl
  have hvalue : account.value = .ok (some ⟨.startup, 2, 1, 1, 0⟩) := by cbv
  have hreadings : Turn.readings account.turns = [⟨5⟩, ⟨5⟩] := by cbv
  obtain ⟨first, later, hfirst, hconverged⟩ :=
    pass_converges twoOverdue.stores hindexed ⟨5⟩ hstart busy 3 1 .startup hvalue rfl
  rw [show Turn.readings _ = _ from hreadings] at hfirst
  cases hfirst
  refine ⟨hvalue, by cbv, fun license hmem ↦ hconverged license hmem ?_ ?_⟩
  · revert license
    decide +kernel
  · revert license
    decide +kernel

end Sweep

end Licensing
