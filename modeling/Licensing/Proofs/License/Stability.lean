import Licensing.Proofs.License.Sweep
import Licensing.Proofs.License.Validation

/-!
# Validations while the background writes

Nobody but the background writes here: validations leave tasks behind, tasks and sweeps write, and
any of them may fail or be lost at any moment (`Rules.unattended`). What a store can become of this
is bounded by `LicenseStore.Mirrors`: licenses keep all that a decision looks at, but that an active
license may have come to be expired, if the clock has passed its expiry by then. To a validation the
two are the same, since the clock would reject the one as the status does the other
(`License.Mirrors.fault?_eq`).

That everything in progress keeps the relation is a pact (`Pact.mirroring`), in which a task is
granted what it will write: `License.validate_stable` follows. It rests on

* `Pact.mirroring_covers`, by cases on who writes: a sweep only what it has listed as active and
  found overdue, a task only what its validation has found and been granted;
* `License.meets_validate`, for the validation that is watched: the store mirrors the first one when
  the license is looked up, and the clock is read no earlier.

The grant is what keeps an old task harmless: what it writes was decided on a license that may have
changed since, but only in ways that the relation allows for.
-/

namespace Licensing

/-! ### What becomes of a license -/

/-- What the background can have made of a license by a point of time. -/
structure License.Mirrors (now : Instant) (first current : License) : Prop where
  id : current.id = first.id
  key : current.key = first.key
  product : current.product = first.product
  expiresAt : current.expiresAt = first.expiresAt
  status : current.status = first.status ∨
    first.status = .active ∧ current.status = .expired ∧ first.isExpiredAt now = true
  metadata : Metadata.Agree first.metadata current.metadata

namespace License.Mirrors

variable {now later : Instant} {first current : License}

protected theorem refl (now : Instant) (license : License) : license.Mirrors now license :=
  ⟨rfl, rfl, rfl, rfl, .inl rfl, .refl _⟩

theorem mono (h : first.Mirrors now current) (hle : now ≤ later) : first.Mirrors later current :=
  { h with status := h.status.imp_right fun ⟨hactive, hexpired, hpast⟩ ↦
      ⟨hactive, hexpired, License.isExpiredAt_mono hle hpast⟩ }

/-- What is active was active. -/
theorem status_of_active (h : first.Mirrors now current) (hactive : current.status = .active) :
    first.status = .active := by
  rcases h.status with hsame | ⟨hfirst, -, -⟩
  · exact hsame.symm.trans hactive
  · exact hfirst

theorem isExpiredAt_eq (h : first.Mirrors now current) (time : Instant) :
    current.isExpiredAt time = first.isExpiredAt time := License.isExpiredAt_congr h.expiresAt time

/-- Expiring what is overdue. -/
theorem withStatus (h : first.Mirrors now current) (hactive : first.status = .active)
    (hpast : first.isExpiredAt now = true) :
    first.Mirrors now (current.withStatus .expired now) :=
  { h with status := .inr ⟨hactive, rfl, hpast⟩ }

/-- Noting an acceptance, even over another note. -/
theorem withMetadata (h : first.Mirrors now current) {metadata : Json}
    (hagree : Metadata.Agree first.metadata (some metadata)) :
    first.Mirrors now (current.withMetadata (some metadata) now) :=
  { h with metadata := hagree }

/-- **A decision cannot tell the difference**: the clock rejects what has become expired. -/
theorem fault?_eq (h : first.Mirrors now current) (hle : now ≤ later)
    (request : ValidationRequest) :
    current.fault? request later = first.fault? request later := by
  have hdevice := bindingFault?_congr (h.metadata Metadata.deviceId (by decide) (by decide)).symm
  have huser := bindingFault?_congr (h.metadata Metadata.userId (by decide) (by decide)).symm
  unfold License.fault?
  simp only [h.product, h.isExpiredAt_eq, hdevice, huser]
  rcases h.status with hstatus | ⟨hactive, hexpired, hpast⟩
  · rw [hstatus]
  -- The status is checked just before the clock, and its reason has the same name.
  · simp [hactive, hexpired, License.isExpiredAt_mono hle hpast, Reason.ofStatus?]

/-- What an agent is told does not show the difference either. -/
theorem disclosure?_eq (h : first.Mirrors now current) :
    Metadata.disclosure? current.metadataFields? = Metadata.disclosure? first.metadataFields? := by
  refine (Metadata.disclosure?_eq_of_agree fun name hname ↦ h.metadata name ?_ ?_).symm
  · rintro rfl
    exact absurd hname (by decide)
  · rintro rfl
    exact absurd hname (by decide)

end License.Mirrors

/-! ### What becomes of the store -/

/-- What the background can have made of a store by a point of time: the same keys lead to licenses
that mirror what they were. -/
structure LicenseStore.Mirrors (now : Instant) (first current : LicenseStore) : Prop where
  byKey : current.byKey = first.byKey
  byId : ∀ id, Option.Rel (License.Mirrors now) (first.byId.get? id) (current.byId.get? id)

private theorem rel_imp {α β : Type} {r s : α → β → Prop} (h : ∀ a b, r a b → s a b) :
    ∀ {a b}, Option.Rel r a b → Option.Rel s a b
  | _, _, .some hab => .some (h _ _ hab)
  | _, _, .none => .none

private theorem exists_of_rel {α β : Type} {r : α → β → Prop} {b : β} :
    ∀ {a}, Option.Rel r a (some b) → ∃ x, a = some x ∧ r x b
  | _, .some hab => ⟨_, rfl, hab⟩

namespace LicenseStore.Mirrors

variable {now later : Instant} {first current : LicenseStore}

protected theorem refl (now : Instant) (store : LicenseStore) : store.Mirrors now store where
  byKey := rfl
  byId id := by
    cases store.byId.get? id with
    | none => exact .none
    | some license => exact .some (.refl now license)

theorem mono (h : first.Mirrors now current) (hle : now ≤ later) : first.Mirrors later current where
  byKey := h.byKey
  byId id := rel_imp (fun _ _ hlicense ↦ hlicense.mono hle) (h.byId id)

theorem changed (h : first.Mirrors now current) (id : Uuid) {f : License → License}
    (hf : ∀ origin license, first.byId.get? id = some origin → origin.Mirrors now license →
      origin.Mirrors now (f license)) : first.Mirrors now (current.changed id f) where
  byKey := h.byKey
  byId := rel_changed h.byId id hf

theorem findByKey (h : first.Mirrors now current) (key : String) :
    Option.Rel (License.Mirrors now) (first.findByKey key) (current.findByKey key) := by
  unfold LicenseStore.findByKey
  rw [h.byKey]
  cases first.byKey.get? key with
  | none => exact .none
  | some id => exact h.byId id

/-- Whoever is stored was stored at first, under the same identifier. -/
theorem exists_origin (h : first.Mirrors now current) (hfirst : first.Indexed) {license : License}
    (hmem : license ∈ current.licenses) :
    ∃ origin, first.byId.get? license.id = some origin ∧ origin.Mirrors now license := by
  obtain ⟨id, hget⟩ := current.byId.mem_values_iff.1 hmem
  obtain ⟨origin, horigin, hlicense⟩ := exists_of_rel (hget ▸ h.byId id)
  refine ⟨origin, ?_, hlicense⟩
  rw [hlicense.id, hfirst.id_eq horigin]
  exact horigin

/-- **A verdict cannot tell the difference.** -/
theorem verdict_eq (h : first.Mirrors now current) (hle : now ≤ later)
    (request : ValidationRequest) :
    (verdict (current.findByKey request.key) request later).reason =
        (verdict (first.findByKey request.key) request later).reason ∧
      (verdict (current.findByKey request.key) request later).disclosed =
        (verdict (first.findByKey request.key) request later).disclosed := by
  have hrel := h.findByKey request.key
  generalize first.findByKey request.key = origin at hrel ⊢
  generalize current.findByKey request.key = found at hrel ⊢
  rcases hrel with hlicense | -
  · simp only [verdict, hlicense.fault?_eq hle, hlicense.disclosure?_eq]
    split
    · exact ⟨rfl, rfl⟩
    · exact ⟨rfl, rfl⟩
  · exact ⟨rfl, rfl⟩

end LicenseStore.Mirrors

/-! ### The pact -/

/-- What a task may be about to write, given what the store was at first: the expiry of a license
that was active and is overdue, or metadata that only note an acceptance. -/
def Task.Granted (first : LicenseStore) (now : Instant) : Task → Prop
  | expire id => ∃ license, first.byId.get? id = some license ∧ license.status = .active ∧
      license.isExpiredAt now = true
  | enrich id metadata => ∃ license, first.byId.get? id = some license ∧
      Metadata.Agree license.metadata (some metadata)
  | noteUse _ => False

/-- The store goes on mirroring what it was at first. -/
def Pact.mirroring (first : LicenseStore) : Pact where
  Holds x := first.Mirrors x.now x.stores.licenses
  Leads x y := x.now ≤ y.now
  Grants x := Task.Granted first x.now
  refl _ := Int.le_refl _
  trans := Instant.le_trans
  tick h hle := ⟨h.mono hle, hle⟩

/-- Only validations and sweeps are started. -/
def Rules.unattended : Rules where
  Starts p := (∃ request, p = (License.validate request).job) ∨
    ∃ most limit trigger, p = (Sweep.pass most limit trigger).job

variable {first : LicenseStore} {x : Shared}

/-- A call whose every possible effect leaves a mirror keeps the pact. -/
theorem Pact.mirroring_does {call : StoreCall} (chance : Chance)
    (h : ∀ after, x.stores.licenses.Step x.now call after → first.Mirrors x.now after) :
    (mirroring first).contract.Does x (.store call) (x.perform chance (.store call)).2 := by
  have hnow : (x.perform chance (.store call)).2.now = x.now := Shared.perform_now _
  refine ⟨?_, Int.le_of_eq (congrArg Instant.ticks hnow.symm), nofun⟩
  show first.Mirrors (x.perform chance (.store call)).2.now _
  rw [hnow]
  exact h _ (x.step_perform chance call)

theorem Pact.mirroring_does_expire {id : Uuid} (hx : (mirroring first).Holds x)
    (hid : Task.Granted first x.now (.expire id)) (chance : Chance) :
    (mirroring first).contract.Does x (.store (.updateStatus id .expired))
      (x.perform chance (.store (.updateStatus id .expired))).2 := by
  obtain ⟨license, hlicense, hactive, hpast⟩ := hid
  refine mirroring_does chance fun after hstep ↦ ?_
  cases hstep with
  | same => exact hx
  | updateStatus =>
    refine hx.changed id fun origin current horigin hcurrent ↦ ?_
    cases hlicense.symm.trans horigin
    exact hcurrent.withStatus hactive hpast

theorem Pact.mirroring_does_enrich {id : Uuid} {metadata : Json} (hx : (mirroring first).Holds x)
    (hid : Task.Granted first x.now (.enrich id metadata)) (chance : Chance) :
    (mirroring first).contract.Does x (.store (.updateMetadata id metadata))
      (x.perform chance (.store (.updateMetadata id metadata))).2 := by
  obtain ⟨license, hlicense, hagree⟩ := hid
  refine mirroring_does chance fun after hstep ↦ ?_
  cases hstep with
  | same => exact hx
  | updateMetadata =>
    refine hx.changed id fun origin current horigin hcurrent ↦ ?_
    cases hlicense.symm.trans horigin
    exact hcurrent.withMetadata hagree

/-- A validation leaves nothing behind that is not granted. -/
theorem LicenseStore.Mirrors.granted {current : LicenseStore} {now later : Instant}
    (h : first.Mirrors now current) (hfirst : first.Indexed)
    {request : ValidationRequest} {task : Task}
    (htask : followUp? (current.findByKey request.key) request later = some task) :
    task.Granted first later := by
  have hrel := h.findByKey request.key
  generalize horigin : first.findByKey request.key = found at hrel
  generalize current.findByKey request.key = license? at hrel htask
  rcases hrel with @⟨origin, license, hlicense⟩ | -
  · have hstored : first.byId.get? license.id = some origin := by
      rw [hlicense.id]
      exact hfirst.mem_licenses_iff.1 (hfirst.findByKey_eq_some_iff.1 horigin).1
    rw [followUp?_some] at htask
    split at htask
    · next hexpired =>
      cases htask
      refine ⟨origin, hstored, hlicense.status_of_active hexpired.2, ?_⟩
      rw [← hlicense.isExpiredAt_eq]
      exact ((License.fault?_eq_expired_iff hexpired.2).1 hexpired.1).2
    · split at htask
      · cases htask
        exact ⟨origin, hstored, hlicense.metadata.trans (Metadata.agree_enriched _ _ _)⟩
      · cases htask
  · cases htask

theorem Task.Granted.mono {now later : Instant} {task : Task} (h : task.Granted first now)
    (hle : now ≤ later) : task.Granted first later := by
  cases task with
  | expire id =>
    obtain ⟨license, hlicense, hactive, hpast⟩ := h
    exact ⟨license, hlicense, hactive, License.isExpiredAt_mono hle hpast⟩
  | enrich id metadata => exact h
  | noteUse id => exact h

/-- What a validation does under the pact, and what it answers where its lookup succeeds: what it
would have answered at first, by the same reading of the clock. -/
theorem License.meets_validate (hfirst : first.Indexed) (request : ValidationRequest)
    (x : Shared) : (Pact.mirroring first).contract.Meets .unattended (License.validate request)
      (fun turns result _ ↦ ∀ found,
        ⟨.store (.findByKey request.key), .ok found⟩ ∈ turns → ∃ now answer,
          Turn.readings turns = [now] ∧ result = .ok answer ∧
          answer.reason = (verdict (first.findByKey request.key) request now).reason ∧
          answer.disclosed = (verdict (first.findByKey request.key) request now).disclosed) x := by
  rw [License.validate_eq]
  rintro y ⟨hy, -⟩ chance -
  rw [Shared.perform_findByKey]
  refine ⟨Pact.does_nothing hy rfl, ?_⟩
  rcases hfound : chance.outcome (.ok (y.stores.licenses.findByKey request.key)) with
    failure | found
  · intro found hmem
    simp at hmem
  · cases (Chance.outcome_eq_ok_iff.1 hfound).2
    rintro z ⟨hz, hyz⟩ - -
    refine ⟨Pact.does_nothing hz rfl, ?_⟩
    -- The store mirrors the first one as of the lookup, and the clock is read no earlier.
    obtain ⟨hreason, hdisclosed⟩ := hy.verdict_eq hyz request
    show (Pact.mirroring first).contract.Meets .unattended
      (judge (y.stores.licenses.findByKey request.key) request z.now) _ z
    rw [judge]
    rcases htask : followUp? (y.stores.licenses.findByKey request.key) request z.now with - | task
    · rintro w ⟨hw, -⟩ - -
      exact ⟨Pact.does_nothing hw rfl, fun _ _ ↦ ⟨z.now, _, rfl, rfl, hreason, hdisclosed⟩⟩
    · rintro w ⟨hw, hzw⟩ - -
      have hgranted := (hy.granted hfirst htask).mono hzw
      refine ⟨⟨hw, Int.le_refl _, ?_⟩, ?_⟩
      · rintro other hother
        cases List.mem_singleton.1 hother
        exact hgranted
      · rintro v ⟨hv, -⟩ - -
        exact ⟨Pact.does_nothing hv rfl, fun _ _ ↦ ⟨z.now, _, rfl, rfl, hreason, hdisclosed⟩⟩

/-- All that runs keeps the pact: validations, the tasks that they leave behind, and sweeps. -/
theorem Pact.mirroring_covers (hfirst : first.Indexed) :
    (mirroring first).Covers .unattended where
  starts {p x} hp hx := by
    rcases hp with ⟨request, rfl⟩ | ⟨most, limit, trigger, rfl⟩
    · exact Contract.meets_job
        ((License.meets_validate hfirst request x).mono fun _ _ _ _ ↦ trivial)
    · refine Sweep.keeps_pass (fun {x y z license} hx hmem hactive hxy hpast hyz hz chance ↦ ?_)
        most limit trigger x
      obtain ⟨origin, horigin, hlicense⟩ := hx.exists_origin hfirst hmem
      have hgranted : Task.Granted first y.now (.expire license.id) := by
        refine ⟨origin, horigin, ?_, hlicense.isExpiredAt_eq y.now ▸ hpast⟩
        exact hlicense.status_of_active hactive
      exact mirroring_does_expire hz (hgranted.mono hyz) chance
  tasks {task x} htask hx := by
    have hgranted : ∀ {y : Shared}, (mirroring first).Leads x y → task.Granted first y.now :=
      Task.Granted.mono htask
    refine Contract.meets_job ?_
    cases task with
    | expire id =>
      refine Contract.meets_call_bind.2 fun y ⟨hy, hxy⟩ chance _ ↦ ?_
      refine ⟨mirroring_does_expire hy (hgranted hxy) chance, ?_⟩
      split
      · exact fun z ⟨hz, _⟩ _ _ ↦ ⟨Pact.does_nothing hz rfl, trivial⟩
      · trivial
    | enrich id metadata =>
      exact fun y ⟨hy, hxy⟩ chance _ ↦ ⟨mirroring_does_enrich hy (hgranted hxy) chance, trivial⟩
    | noteUse id => exact htask.elim

/-- **Background writes never change a verdict.** Take any indexed store, and let validations, their
tasks and sweeps run in any order, with any failures and losses. Then a validation whose lookup
succeeds, watched from any moment on and whatever goes on in the meantime, reads the clock once and
answers as it would have answered on its own by that reading, had nothing been written since the
start. -/
theorem License.validate_stable (initial : Stores) (hindexed : initial.licenses.Indexed)
    (start : Instant) {s : System} (hs : Rules.unattended.Reaches ⟨⟨initial, start⟩, []⟩ s)
    (course : Course .unattended) (request : ValidationRequest) {found : Option License}
    (hfound : ⟨.store (.findByKey request.key), .ok found⟩ ∈
      (course.watch (License.validate request) s).turns) :
    ∃ now answer quiet,
      Turn.readings (course.watch (License.validate request) s).turns = [now] ∧
      (course.watch (License.validate request) s).value = .ok answer ∧
      (World.run (License.validate request) { now, stores := initial }).1 = .ok quiet ∧
      answer.isValid = quiet.isValid ∧ answer.reason = quiet.reason ∧
      answer.disclosed = quiet.disclosed := by
  have hcovers := Pact.mirroring_covers hindexed
  have hstart : (Pact.mirroring initial.licenses).Kept .unattended ⟨⟨initial, start⟩, []⟩ :=
    ⟨.refl start initial.licenses, nofun⟩
  have hkept := (Pact.kept_of_reaches hcovers hs hstart).1
  obtain ⟨now, answer, hreadings, hvalue, hreason, hdisclosed⟩ :=
    (Pact.watch_of_keeps hcovers course hkept
      (License.meets_validate hindexed request s.toShared)).1 found hfound
  refine ⟨now, answer, _, hreadings, hvalue, World.run_validate_fresh request initial now, ?_,
    hreason, hdisclosed⟩
  rw [Verdict.isValid, Verdict.isValid, hreason]

/-- A license that is overdue. -/
def overdueLicense : License :=
  { License.fresh ⟨0⟩ ⟨0⟩ "K" "standard" "app" .active with expiresAt := some ⟨3⟩ }

/-- A validation of the license, and then the task that it leaves behind. -/
def expiredBehind : System :=
  (System.finish ⟨⟨⟨.single overdueLicense, .empty⟩, ⟨5⟩⟩, []⟩ (fun _ ↦ {})
    (License.validate ⟨"K", "app", none⟩).job).finishFirst fun _ ↦ {}

/-- A license that an earlier validation has had expired by now: it is found expired, and the answer
is the one that it would be if it had been found active. -/
theorem License.validate_stable_expired :
    let initial : Stores := ⟨.single overdueLicense, .empty⟩
    let account := (Course.idle (fun _ ↦ {}) fun _ _ ↦ trivial : Course .unattended).watch
      (License.validate ⟨"K", "app", none⟩) expiredBehind
    ⟨.store (.findByKey "K"), .ok (some (overdueLicense.withStatus .expired ⟨5⟩))⟩ ∈
        account.turns ∧
      ∃ now answer quiet,
        Turn.readings account.turns = [now] ∧ account.value = .ok answer ∧
        (World.run (License.validate ⟨"K", "app", none⟩) { now, stores := initial }).1 =
          .ok quiet ∧
        answer.isValid = quiet.isValid ∧ answer.reason = quiet.reason ∧
        answer.disclosed = quiet.disclosed := by
  intro initial account
  have hfound : ⟨.store (.findByKey "K"), .ok (some (overdueLicense.withStatus .expired ⟨5⟩))⟩ ∈
      account.turns := by
    show _ ∈ Account.turns (Course.watch _ (License.validate ⟨"K", "app", none⟩) expiredBehind)
    rw [License.validate_eq]
    exact List.mem_cons_self
  have hbefalls : ∀ x effect, Rules.unattended.Befalls x effect {} := fun _ _ ↦ trivial
  have hs : Rules.unattended.Reaches ⟨⟨initial, ⟨5⟩⟩, []⟩ expiredBehind :=
    (Rules.reaches_finish_of_starts hbefalls (.inl ⟨⟨"K", "app", none⟩, rfl⟩) _).trans
      (Rules.reaches_finishFirst hbefalls _)
  exact ⟨hfound, License.validate_stable initial (LicenseStore.indexed_single overdueLicense) ⟨5⟩
    hs _ _ hfound⟩

end Licensing
