import Licensing.License.Amending
import Licensing.Proofs.License.Sweep
import Licensing.Proofs.License.Validation

/-!
# Operations that make nothing active

Validations and their tasks, sweeps, issuing, setting a status other than active and amending, in
any order and any of them failing or lost (`Rules.peers`). Of all this one thing is certain: a
license once stored stays stored with its expiry, and does not become active again
(`LicenseStore.Retires`). An amendment could change the expiry; here those only get through that do
not. That every operation keeps this is a pact (`Pact.retiring_covers`), and all that has to be seen
of an operation for it is which calls it can make (`Program.Only`).

`Pact.retiring_covers` is a case analysis of who may be started, and the cases rest on two facts:
what a single call can do to the licenses (`LicenseStore.Step.retires`), and which calls each
operation can make. An operation that is added needs the second and nothing else.
-/

namespace Licensing

/-! ### What becomes of a store -/

/-- Licenses stay stored, with their expiry, and none becomes active again. -/
def LicenseStore.Retires (before after : LicenseStore) : Prop :=
  ∀ id license, before.byId.get? id = some license → ∃ later, after.byId.get? id = some later ∧
    later.expiresAt = license.expiresAt ∧ (later.status = .active → license.status = .active)

namespace LicenseStore.Retires

variable {store : LicenseStore}

protected theorem refl (store : LicenseStore) : store.Retires store :=
  fun _ license h ↦ ⟨license, h, rfl, id⟩

protected theorem trans {before between after : LicenseStore} (h : before.Retires between)
    (h' : between.Retires after) : before.Retires after := by
  intro id license hlicense
  obtain ⟨middle, hmiddle, hexpiry, hactive⟩ := h id license hlicense
  obtain ⟨later, hlater, hexpiry', hactive'⟩ := h' id middle hmiddle
  exact ⟨later, hlater, hexpiry'.trans hexpiry, hactive ∘ hactive'⟩

/-- Changing a license in a way that leaves its expiry and does not make it active. -/
theorem changed {id : Uuid} {f : License → License}
    (hf : ∀ license, store.byId.get? id = some license →
      (f license).expiresAt = license.expiresAt ∧
        ((f license).status = .active → license.status = .active)) :
    store.Retires (store.changed id f) := by
  intro wanted license hlicense
  rw [get?_changed]
  split
  · next heq =>
    subst heq
    obtain ⟨hexpiry, hactive⟩ := hf license hlicense
    exact ⟨f license, by rw [hlicense]; rfl, hexpiry, hactive⟩
  · exact ⟨license, hlicense, rfl, fun hactive ↦ hactive⟩

end LicenseStore.Retires

/-- No call makes a license active but the one that says so, and only an amendment can change an
expiry. -/
theorem LicenseStore.Step.retires {now : Instant} {store after : LicenseStore} {call : StoreCall}
    (h : store.Step now call after) (hstatus : ∀ id, call ≠ .updateStatus id .active)
    (hexpiry : ∀ edit, call = .update edit → ∀ stored, store.byId.get? edit.id = some stored →
      edit.expiresAt = stored.expiresAt) : store.Retires after := by
  cases h with
  | same => exact .refl store
  | create license hid hkey =>
    intro wanted stored hstored
    -- The new license has an identifier of its own and hides nobody.
    refine ⟨stored, ?_, rfl, id⟩
    rw [added, Table.get?_insert, if_neg, hstored]
    rintro rfl
    rw [hid] at hstored
    cases hstored
  | updateStatus id status =>
    refine .changed fun license _ ↦ ⟨rfl, fun hactive ↦ ?_⟩
    exact absurd (congrArg (StoreCall.updateStatus id) hactive) (hstatus id)
  | updateMetadata id metadata => exact .changed fun license _ ↦ ⟨rfl, fun hactive ↦ hactive⟩
  | update edit => exact .changed fun license hlicense ↦ ⟨hexpiry edit rfl license hlicense, id⟩

/-! ### The pact -/

/-- The store stays indexed and only retires licenses; any task may be submitted. -/
def Pact.retiring : Pact where
  Holds x := x.stores.licenses.Indexed
  Leads x y := x.now ≤ y.now ∧ x.stores.licenses.Retires y.stores.licenses
  Grants _ _ := True
  refl _ := ⟨Int.le_refl _, .refl _⟩
  trans h h' := ⟨Instant.le_trans h.1 h'.1, h.2.trans h'.2⟩
  tick h hle := ⟨h, hle, .refl _⟩

/-- What may be started: validations and tasks, sweeps, issuing, setting a status other than active,
amending. -/
inductive Rules.PeerStarts : Program Unit → Prop
  | validate (request : ValidationRequest) : PeerStarts (License.validate request).job
  | task (task : Task) : PeerStarts task.program.job
  | sweep (most limit : Nat) (trigger : Sweep.Trigger) :
      PeerStarts (Sweep.pass most limit trigger).job
  | issue (request : IssueRequest) : PeerStarts (License.issue request).job
  | assignStatus (id : Uuid) (status : Status) (h : status ≠ .active) :
      PeerStarts (License.assignStatus id status).job
  | amend (id : Uuid) (amendment : Amendment) : PeerStarts (License.amend id amendment).job

/-- An amendment that gets through leaves the expiry that is stored. -/
def Rules.ExpiryStays (x : Shared) : Effect → Chance → Prop
  | .store (.update edit), chance => chance.failure = none → ∀ stored,
      x.stores.licenses.byId.get? edit.id = some stored → edit.expiresAt = stored.expiresAt
  | _, _ => True

/-- All that makes no license active and changes no expiry. -/
def Rules.peers : Rules := ⟨PeerStarts, ExpiryStays⟩

/-- Effects that make no license active. -/
def Effect.MakesNoneActive : Effect → Prop
  | .store (.updateStatus _ status) => status ≠ .active
  | _ => True

theorem Pact.retiring_does {x : Shared} {effect : Effect} {chance : Chance}
    (hkind : effect.MakesNoneActive) (hx : retiring.Holds x)
    (hchance : Rules.peers.Befalls x effect chance) :
    retiring.contract.Does x effect (x.perform chance effect).2 := by
  cases effect with
  | store call =>
    rcases hfailure : chance.failure with - | failure
    · rw [Shared.perform_store_of_none hfailure]
      refine ⟨x.stores.indexed_answer x.now hx call, ⟨Int.le_refl _, ?_⟩, nofun⟩
      refine (x.stores.step_answer x.now call).retires ?_ ?_
      · rintro id rfl
        exact hkind rfl
      · rintro edit rfl stored hstored
        exact hchance hfailure stored hstored
    · rw [Shared.perform_store_of_failure hfailure]
      exact Pact.does_nothing hx rfl
  | _ => exact ⟨hx, retiring.refl x, fun _ _ ↦ trivial⟩

/-! ### The operations -/

theorem Sweep.attempt_makesNoneActive (license : License) :
    (attempt license).MakesNoneActive := by
  show Status.expired ≠ .active
  decide

theorem License.only_validate (request : ValidationRequest) :
    Program.Only Effect.MakesNoneActive (License.validate request) := by
  rw [License.validate_eq]
  refine ⟨trivial, ?_⟩
  rintro (failure | found)
  · trivial
  · refine ⟨trivial, fun now ↦ ?_⟩
    simp only [judge]
    cases followUp? found request now with
    | some task => exact ⟨trivial, fun _ ↦ ⟨trivial, fun _ ↦ trivial⟩⟩
    | none => exact ⟨trivial, fun _ ↦ trivial⟩

theorem Task.only_program (task : Task) :
    Program.Only Effect.MakesNoneActive task.program := by
  cases task with
  | expire id =>
    have hexpired : Status.expired ≠ .active := by decide
    exact Program.Only.except_bind (.call hexpired) fun _ ↦ ⟨trivial, fun _ ↦ trivial⟩
  | enrich id metadata => exact .call trivial
  | noteUse id => exact ⟨trivial, fun now ↦ .call trivial⟩

theorem License.only_issue (request : IssueRequest) :
    Program.Only Effect.MakesNoneActive (License.issue request) := by
  refine ⟨trivial, fun now ↦ ?_⟩
  simp only [Program.bind, Function.comp, ExceptT.bindCont]
  cases request.fault? now with
  | some fault => trivial
  | none => exact ⟨trivial, fun key ↦ ⟨trivial, fun id ↦ .call trivial⟩⟩

theorem License.only_fetch (id : Uuid) :
    Program.Only Effect.MakesNoneActive (License.fetch id) := by
  refine Program.Only.except_bind (.call trivial) fun found ↦ ?_
  cases found <;> trivial

theorem License.only_amend (id : Uuid) (amendment : Amendment) :
    Program.Only Effect.MakesNoneActive (License.amend id amendment) := by
  refine Program.Only.except_bind (only_fetch id) fun license ↦ ?_
  split
  · trivial
  · split
    · trivial
    · refine Program.Only.bind (.call trivial) ?_
      rintro (failure | license) <;> trivial

/-- **All that runs among peers keeps the pact.** -/
theorem Pact.retiring_covers : retiring.Covers .peers where
  starts {p x} hp hx := by
    cases hp with
    | validate request => exact keeps_of_only retiring_does (License.only_validate request).job x
    | task task => exact keeps_of_only retiring_does task.only_program.job x
    | sweep most limit trigger =>
      refine Sweep.keeps_pass (fun {_ _ _ license} _ _ _ _ _ _ hz _ ↦ ?_) most limit trigger x
      exact retiring_does (Sweep.attempt_makesNoneActive license) hz trivial
    | issue request => exact keeps_of_only retiring_does (License.only_issue request).job x
    | assignStatus id status h =>
      have honly : Program.Only Effect.MakesNoneActive (License.assignStatus id status) := .call h
      exact keeps_of_only retiring_does honly.job x
    | amend id amendment =>
      exact keeps_of_only retiring_does (License.only_amend id amendment).job x
  tasks {task x} _ _ := keeps_of_only retiring_does task.only_program.job x

end Licensing
