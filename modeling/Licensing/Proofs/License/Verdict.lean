import Licensing.License.Validation
import Licensing.Proofs.License.Keeping
import Licensing.Proofs.License.Metadata

/-!
# What a verdict says

The rules by which a request is decided, stated without the computation. `License.GoodFor` is what
it takes to be accepted. A `Check` that fails has a reason (`Check.Fails`), and the reason of a
rejection is that of the first failing check (`Check.FirstFailing`); the order of the checks is a
list, `Check.inOrder`. `Decides` puts the parts together and `FollowsUp` says which task, if any,
the answer leaves behind. Both look at the store only through the licenses that have the key.

`verdict_decides` and `followUp?_followsUp` say that `verdict` and `followUp?` compute this. Both
rest on the checks being made one by one: what a license fails is found by going through
`Check.inOrder` (`License.fault?_eq_findSome?`), and a check gives a reason exactly if it fails with
that reason (`Check.failure?_eq_some_iff`). So to be good for a request is to fail no check
(`License.goodFor_iff`), and the rest is a case analysis of the first that fails.

What is left behind has a form of its own (`followUp?_some`), because the expiry of an active
license is looked at before its bindings are, and after its product.
-/

namespace Licensing

/-! ### The rules -/

/-- Wherever the license has a text under the name, the agent presents exactly this text. -/
def License.Fits (license : License) (request : ValidationRequest) (name : String) : Prop :=
  ∀ bound, Metadata.Holds license.metadata name bound → Metadata.Holds request.metadata name bound

/-- The license is good for the request: it has the key, is for the product, active, not past its
expiry, and fits the device and the user. -/
structure License.GoodFor (license : License) (request : ValidationRequest) (now : Instant) :
    Prop where
  key : license.key = request.key
  product : license.product = request.product
  status : license.status = .active
  expiry : ∀ expiry, license.expiresAt = some expiry → now ≤ expiry
  device : license.Fits request Metadata.deviceId
  user : license.Fits request Metadata.userId

/-- The license has a text under the name and the agent presents none, or another one. -/
inductive License.Unmet (license : License) (request : ValidationRequest) (name : String)
    (required mismatch : Reason) : Reason → Prop
  | required {bound : String} (h : Metadata.Holds license.metadata name bound)
      (hnone : ∀ text, ¬ Metadata.Holds request.metadata name text) :
      Unmet license request name required mismatch required
  | mismatch {bound text : String} (h : Metadata.Holds license.metadata name bound)
      (hother : Metadata.Holds request.metadata name text) (hne : text ≠ bound) :
      Unmet license request name required mismatch mismatch

/-- The checks that are made of a request. -/
inductive Check
  | known
  | product
  | status
  | expiry
  | device
  | user
  deriving DecidableEq

namespace Check

/-- The order in which the checks are made. -/
def inOrder : List Check := [known, product, status, expiry, device, user]

/-- What it takes to fail a check, and the reason that it gives. The reason of a status bears the
name of the status. -/
inductive Fails (request : ValidationRequest) (now : Instant) :
    Option License → Check → Reason → Prop
  | known : Fails request now none known .notFound
  | product {license : License} (h : license.product ≠ request.product) :
      Fails request now (some license) product .productMismatch
  | status {license : License} {reason : Reason} (h : license.status ≠ .active)
      (hname : reason.name = license.status.name) : Fails request now (some license) status reason
  | expiry {license : License} {end_ : Instant} (h : license.expiresAt = some end_)
      (hpast : end_ < now) : Fails request now (some license) expiry .expired
  | device {license : License} {reason : Reason}
      (h : license.Unmet request Metadata.deviceId .deviceRequired .deviceMismatch reason) :
      Fails request now (some license) device reason
  | user {license : License} {reason : Reason}
      (h : license.Unmet request Metadata.userId .userRequired .userMismatch reason) :
      Fails request now (some license) user reason

/-- The reason is that of the first check that fails, all before it being passed. -/
def FirstFailing (request : ValidationRequest) (now : Instant) (found : Option License)
    (reason : Reason) : Prop :=
  ∃ before check after, inOrder = before ++ check :: after ∧
    (∀ earlier ∈ before, ∀ other, ¬ Fails request now found earlier other) ∧
    Fails request now found check reason

end Check

/-- The license of a store that has the key, if any. -/
def LicenseStore.Has (store : LicenseStore) (key : String) (found : Option License) : Prop :=
  ∀ license, found = some license ↔ license ∈ store.licenses ∧ license.key = key

/-- How a request is decided. -/
structure Decides (store : LicenseStore) (request : ValidationRequest) (now : Instant)
    (answer : Verdict) : Prop where
  isValid_iff : answer.isValid = true ↔ ∃ license ∈ store.licenses, license.GoodFor request now
  license : store.Has request.key answer.license
  reason : answer.isValid = false → Check.FirstFailing request now answer.license answer.reason
  withheld : answer.isValid = false → answer.disclosed = none
  disclosed : answer.isValid = true → ∀ license ∈ store.licenses, license.key = request.key →
    Metadata.Discloses license.metadata answer.disclosed

/-- Which task an answer leaves behind: an expiry where the clock rejected an active license, and a
note where the answer is an acceptance that the metadata does not show yet. -/
structure FollowsUp (store : LicenseStore) (request : ValidationRequest) (now : Instant)
    (answer : Verdict) (task : Option Task) : Prop where
  expire_iff : ∀ id, task = some (.expire id) ↔ answer.reason = .expired ∧
    ∃ license ∈ store.licenses, license.key = request.key ∧ license.status = .active ∧
      license.id = id
  enrich_iff : ∀ id metadata, task = some (.enrich id metadata) ↔ answer.isValid = true ∧
    ∃ license ∈ store.licenses, license.key = request.key ∧ license.id = id ∧
      metadata = Metadata.enriched license.metadata now
        (Metadata.Claims.ofJson request.metadata).ipAddress ∧
      license.metadata ≠ some metadata
  noteUse : ∀ id, task ≠ some (.noteUse id)

/-! ### The checks one by one -/

variable {license : License} {request : ValidationRequest} {now : Instant} {reason : Reason}

/-- The reason that a check gives, if it fails. -/
def Check.failure? (request : ValidationRequest) (now : Instant) :
    Option License → Check → Option Reason
  | none, known => some .notFound
  | none, _ => none
  | some _, known => none
  | some license, product =>
    if license.product ≠ request.product then some .productMismatch else none
  | some license, status => Reason.ofStatus? license.status
  | some license, expiry => if license.isExpiredAt now then some .expired else none
  | some license, device =>
    bindingFault? license.metadataFields? Metadata.deviceId
      (Metadata.string? request.metadata Metadata.deviceId) .deviceRequired .deviceMismatch
  | some license, user =>
    bindingFault? license.metadataFields? Metadata.userId
      (Metadata.string? request.metadata Metadata.userId) .userRequired .userMismatch

theorem bindingFault?_eq_some_iff {name : String} {required mismatch : Reason} :
    bindingFault? license.metadataFields? name (Metadata.string? request.metadata name) required
      mismatch = some reason ↔ license.Unmet request name required mismatch reason := by
  have hbound : license.metadataFields?.bind (Json.Fields.nonEmptyString? · name) =
      Metadata.string? license.metadata name := rfl
  rw [bindingFault?, hbound]
  constructor
  · intro h
    split at h
    · cases h
    · next bound hb =>
      have hholds := Metadata.string?_eq_some_iff.1 hb
      split at h
      · next hp =>
        cases h
        exact .required hholds (Metadata.string?_eq_none_iff.1 hp)
      · next text hp =>
        split at h
        · cases h
        · next hne =>
          cases h
          exact .mismatch hholds (Metadata.string?_eq_some_iff.1 hp) hne
  · rintro (⟨hb, hnone⟩ | ⟨hb, hother, hne⟩)
    · rw [Metadata.string?_eq_some_iff.2 hb, Metadata.string?_eq_none_iff.2 hnone]
    · rw [Metadata.string?_eq_some_iff.2 hb, Metadata.string?_eq_some_iff.2 hother]
      exact if_neg hne

/-- A binding looks at the metadata under its own name only. -/
theorem bindingFault?_congr {a b : License} {name : String}
    (h : Metadata.field? a.metadata name = Metadata.field? b.metadata name)
    (presented : Option String) (required mismatch : Reason) :
    bindingFault? a.metadataFields? name presented required mismatch =
      bindingFault? b.metadataFields? name presented required mismatch := by
  have hbound : a.metadataFields?.bind (Json.Fields.nonEmptyString? · name) =
      b.metadataFields?.bind (Json.Fields.nonEmptyString? · name) := Metadata.string?_congr h
  rw [bindingFault?, bindingFault?, hbound]

theorem Reason.ofStatus?_eq_some_iff {status : Status} :
    Reason.ofStatus? status = some reason ↔ status ≠ .active ∧ reason.name = status.name := by
  cases status <;> cases reason <;> decide

theorem Reason.ofStatus?_eq_none_iff {status : Status} :
    Reason.ofStatus? status = none ↔ status = .active := by
  cases status <;> decide

theorem Reason.ofStatus?_ne_valid (status : Status) : Reason.ofStatus? status ≠ some .valid := by
  cases status <;> decide

theorem Check.failure?_eq_some_iff {found : Option License} {check : Check} :
    check.failure? request now found = some reason ↔ check.Fails request now found reason := by
  constructor
  · intro h
    rcases found with - | license
    · cases check with
      | known =>
        cases h
        exact .known
      | _ => cases h
    · cases check with
      | known => cases h
      | product =>
        obtain ⟨hne, heq⟩ := Option.ite_none_right_eq_some.1 h
        cases heq
        exact .product hne
      | status =>
        obtain ⟨hne, hname⟩ := Reason.ofStatus?_eq_some_iff.1 h
        exact .status hne hname
      | expiry =>
        obtain ⟨hexpired, heq⟩ := Option.ite_none_right_eq_some.1 h
        obtain ⟨limit, hlimit, hpast⟩ := (license.isExpiredAt_eq_true_iff now).1 hexpired
        cases heq
        exact .expiry hlimit hpast
      | device => exact .device (bindingFault?_eq_some_iff.1 h)
      | user => exact .user (bindingFault?_eq_some_iff.1 h)
  · rintro (- | hne | ⟨hne, hname⟩ | ⟨hlimit, hpast⟩ | hunmet | hunmet)
    · rfl
    · exact if_pos hne
    · exact Reason.ofStatus?_eq_some_iff.2 ⟨hne, hname⟩
    · exact if_pos ((License.isExpiredAt_eq_true_iff _ now).2 ⟨_, hlimit, hpast⟩)
    · exact bindingFault?_eq_some_iff.2 hunmet
    · exact bindingFault?_eq_some_iff.2 hunmet

/-- What a license fails is found by making the checks in their order. -/
theorem License.fault?_eq_findSome? (license : License) (request : ValidationRequest)
    (now : Instant) : license.fault? request now =
      Check.inOrder.findSome? (Check.failure? request now (some license)) := by
  -- The checks are written one `or` after another, and so is the search of a list.
  have hor : ∀ (f : Check → Option Reason) (check : Check) (rest : List Check),
      (check :: rest).findSome? f = (f check).or (rest.findSome? f) := by
    intro f check rest
    rw [List.findSome?_cons]
    cases f check <;> rfl
  simp only [Check.inOrder, hor, List.findSome?_nil, Option.or_none, fault?, Metadata.claims_eq,
    Check.failure?, Option.none_or]
  by_cases hproduct : license.product = request.product <;> simp [hproduct]

theorem Check.findSome?_failure?_eq_some_iff {found : Option License} :
    inOrder.findSome? (failure? request now found) = some reason ↔
      FirstFailing request now found reason := by
  rw [List.findSome?_eq_some_iff]
  refine exists_congr fun before ↦ exists_congr fun check ↦ exists_congr fun after ↦
    and_congr_right fun _ ↦ ?_
  rw [failure?_eq_some_iff, and_comm]
  simp only [Option.eq_none_iff_forall_ne_some, ne_eq, failure?_eq_some_iff]

/-- No check gives the reason of an acceptance. -/
theorem Check.Fails.reason_ne_valid {found : Option License} {check : Check}
    (h : check.Fails request now found reason) : reason ≠ .valid := by
  rintro rfl
  rcases h with - | - | ⟨hne, hname⟩ | - | hunmet | hunmet
  · exact Reason.ofStatus?_ne_valid _ (Reason.ofStatus?_eq_some_iff.2 ⟨hne, hname⟩)
  · cases hunmet
  · cases hunmet

/-- A license fits what the agent presents exactly where no binding is unmet. -/
theorem License.fits_iff {name : String} (required mismatch : Reason) :
    license.Fits request name ↔
      ∀ reason, ¬ license.Unmet request name required mismatch reason := by
  constructor
  · rintro hfits reason (⟨hbound, hnone⟩ | ⟨hbound, hother, hne⟩)
    · exact hnone _ (hfits _ hbound)
    · have hsame := (hfits _ hbound).1.symm.trans hother.1
      exact hne (Json.string.inj (Option.some.inj hsame)).symm
  · intro hmet bound hbound
    rcases hp : Metadata.string? request.metadata name with - | text
    · exact absurd (.required hbound (Metadata.string?_eq_none_iff.1 hp)) (hmet required)
    · have htext := Metadata.string?_eq_some_iff.1 hp
      by_cases heq : text = bound
      · exact heq ▸ htext
      · exact absurd (.mismatch hbound htext heq) (hmet mismatch)

/-- **A license is good for a request exactly when it has the key and fails no check.** -/
theorem License.goodFor_iff : license.GoodFor request now ↔
    license.key = request.key ∧ license.fault? request now = none := by
  have hnone : license.fault? request now = none ↔
      ∀ (check : Check) reason, ¬ check.Fails request now (some license) reason := by
    rw [License.fault?_eq_findSome?, List.findSome?_eq_none_iff]
    simp only [Option.eq_none_iff_forall_ne_some, ne_eq, Check.failure?_eq_some_iff]
    exact ⟨fun h check ↦ h check (by cases check <;> decide), fun h check _ ↦ h check⟩
  rw [hnone]
  constructor
  · rintro ⟨hkey, hproduct, hstatus, hexpiry, hdevice, huser⟩
    refine ⟨hkey, ?_⟩
    rintro check reason (- | hne | ⟨hne, -⟩ | ⟨hlimit, hpast⟩ | hunmet | hunmet)
    · exact hne hproduct
    · exact hne hstatus
    · exact Instant.not_lt.2 (hexpiry _ hlimit) hpast
    · exact (fits_iff _ _).1 hdevice _ hunmet
    · exact (fits_iff _ _).1 huser _ hunmet
  · rintro ⟨hkey, hpass⟩
    refine ⟨hkey, ?_, ?_, ?_, ?_, ?_⟩
    · exact Decidable.byContradiction fun hne ↦ hpass .product _ (.product hne)
    · rcases hreason : Reason.ofStatus? license.status with - | reason
      · exact Reason.ofStatus?_eq_none_iff.1 hreason
      · obtain ⟨hne, hname⟩ := Reason.ofStatus?_eq_some_iff.1 hreason
        exact absurd (.status hne hname) (hpass .status reason)
    · exact fun limit hlimit ↦ Instant.not_lt.1 fun hpast ↦ hpass .expiry _ (.expiry hlimit hpast)
    · exact (fits_iff .deviceRequired .deviceMismatch).2 fun reason hunmet ↦
        hpass .device reason (.device hunmet)
    · exact (fits_iff .userRequired .userMismatch).2 fun reason hunmet ↦
        hpass .user reason (.user hunmet)

/-! ### The verdict -/

theorem verdict_license (found : Option License) (request : ValidationRequest) (now : Instant) :
    (verdict found request now).license = found := by
  rcases found with - | license
  · rfl
  · rw [verdict]
    cases license.fault? request now <;> rfl

/-- The first failing check rejects. -/
theorem verdict_of_firstFailing {found : Option License}
    (h : Check.FirstFailing request now found reason) :
    verdict found request now = .rejected reason found := by
  rw [← Check.findSome?_failure?_eq_some_iff] at h
  rcases found with - | license
  · cases h
    rfl
  · rw [← License.fault?_eq_findSome?] at h
    rw [verdict, h]

theorem Check.FirstFailing.reason_ne_valid {found : Option License}
    (h : FirstFailing request now found reason) : reason ≠ .valid := by
  obtain ⟨_, check, _, _, _, hfails⟩ := h
  exact hfails.reason_ne_valid

/-- A good license is accepted, and the agent is told what it may be told. -/
theorem License.GoodFor.verdict_eq (h : license.GoodFor request now) :
    verdict (some license) request now =
      ⟨.valid, some license, Metadata.disclosure? license.metadataFields?⟩ := by
  rw [verdict, (License.goodFor_iff.1 h).2]

/-- Who is not good for the request fails some check first. -/
theorem goodFor_or_firstFailing {found : Option License} (now : Instant)
    (hkey : ∀ license, found = some license → license.key = request.key) :
    (∃ license, found = some license ∧ license.GoodFor request now) ∨
      ∃ reason, Check.FirstFailing request now found reason := by
  rcases hfirst : Check.inOrder.findSome? (Check.failure? request now found) with - | reason
  · rcases found with - | license
    · cases hfirst
    · rw [← License.fault?_eq_findSome?] at hfirst
      exact .inl ⟨license, rfl, License.goodFor_iff.2 ⟨hkey license rfl, hfirst⟩⟩
  · exact .inr ⟨reason, Check.findSome?_failure?_eq_some_iff.1 hfirst⟩

theorem LicenseStore.Has.exists_iff {store : LicenseStore} {key : String} {found : Option License}
    (h : store.Has key found) {P : License → Prop} :
    (∃ license ∈ store.licenses, license.key = key ∧ P license) ↔
      ∃ license, found = some license ∧ P license := by
  refine exists_congr fun license ↦ ?_
  rw [h license, and_assoc]

/-- **A verdict decides by the rules.** -/
theorem verdict_decides {store : LicenseStore} {found : Option License}
    (hfound : store.Has request.key found) :
    Decides store request now (verdict found request now) := by
  have hkey : ∀ license, found = some license → license.key = request.key :=
    fun license h ↦ ((hfound license).1 h).2
  have hlicense : store.Has request.key (verdict found request now).license := by
    rw [verdict_license]
    exact hfound
  rcases goodFor_or_firstFailing now hkey with ⟨license, rfl, hgood⟩ | ⟨reason, hfirst⟩
  · have hvalid : (verdict (some license) request now).isValid = true := by
      rw [hgood.verdict_eq]
      rfl
    refine ⟨iff_of_true hvalid ⟨license, ((hfound license).1 rfl).1, hgood⟩, hlicense,
      fun h ↦ ?_, fun h ↦ ?_, fun _ other hmem hother ↦ ?_⟩
    · simp [hvalid] at h
    · simp [hvalid] at h
    · cases (hfound other).2 ⟨hmem, hother⟩
      rw [hgood.verdict_eq]
      exact Metadata.discloses_disclosure? license.metadata
  · have hrejected := verdict_of_firstFailing hfirst
    have hinvalid : (verdict found request now).isValid = false := by
      rw [hrejected]
      exact decide_eq_false hfirst.reason_ne_valid
    refine ⟨iff_of_false (by simp [hinvalid]) ?_, hlicense, fun _ ↦ ?_, fun _ ↦ ?_, fun h ↦ ?_⟩
    · rintro ⟨license, hmem, hgood⟩
      cases (hfound license).2 ⟨hmem, hgood.key⟩
      rw [hgood.verdict_eq] at hinvalid
      cases hinvalid
    · rw [hrejected]
      exact hfirst
    · rw [hrejected]
      rfl
    · simp [hinvalid] at h

/-! ### What is left behind -/

/-- An active license is rejected by the clock exactly when it is for the product and past its
expiry: the bindings are only looked at later. -/
theorem License.fault?_eq_expired_iff (hactive : license.status = .active) :
    license.fault? request now = some .expired ↔
      license.product = request.product ∧ license.isExpiredAt now = true := by
  have hdevice : bindingFault? license.metadataFields? Metadata.deviceId
      (Metadata.string? request.metadata Metadata.deviceId) .deviceRequired .deviceMismatch ≠
        some .expired := fun h ↦ nomatch bindingFault?_eq_some_iff.1 h
  have huser : bindingFault? license.metadataFields? Metadata.userId
      (Metadata.string? request.metadata Metadata.userId) .userRequired .userMismatch ≠
        some .expired := fun h ↦ nomatch bindingFault?_eq_some_iff.1 h
  simp only [fault?, Metadata.claims_eq]
  by_cases hproduct : license.product = request.product
  · by_cases hexpired : license.isExpiredAt now = true
    · simp [hproduct, hactive, hexpired, Reason.ofStatus?]
    · simp [hproduct, hactive, hexpired, Reason.ofStatus?, hdevice, huser]
  · simp [hproduct]

theorem License.live_of_fault?_eq_none (h : license.fault? request now = none) :
    license.product = request.product ∧ license.status = .active ∧
      license.isExpiredAt now = false := by
  have hgood : license.GoodFor { request with key := license.key } now :=
    License.goodFor_iff.2 ⟨rfl, h⟩
  refine ⟨hgood.product, hgood.status, Bool.eq_false_iff.2 fun hexpired ↦ ?_⟩
  obtain ⟨limit, hlimit, hpast⟩ := (license.isExpiredAt_eq_true_iff now).1 hexpired
  exact Instant.not_lt.2 (hgood.expiry limit hlimit) hpast

/-- What is left behind follows from what the license fails: an acceptance may be noted, and an
expiry is set where the status does not say so yet. -/
theorem followUp?_some (license : License) (request : ValidationRequest) (now : Instant) :
    followUp? (some license) request now =
      if license.fault? request now = some .expired ∧ license.status = .active then
        some (.expire license.id)
      else if license.fault? request now = none ∧ license.metadata ≠
          some (Metadata.enriched license.metadata now
            (Metadata.Claims.ofJson request.metadata).ipAddress) then
        some (.enrich license.id (Metadata.enriched license.metadata now
          (Metadata.Claims.ofJson request.metadata).ipAddress))
      else none := by
  unfold followUp?
  by_cases hlive : license.product = request.product ∧ license.status = .active
  · have hexpiry : license.fault? request now = some .expired ↔
        license.product = request.product ∧ license.isExpiredAt now = true :=
      License.fault?_eq_expired_iff hlive.2
    cases hexpired : license.isExpiredAt now with
    | true => simp [hlive, hexpired, hexpiry]
    | false =>
      rcases hfault : license.fault? request now with - | reason
      · simp [hlive, hexpired, hfault]
      · have hother : reason ≠ .expired := by
          rintro rfl
          simp [hexpired, hfault] at hexpiry
        simp [hlive, hexpired, hfault, hother]
  · -- Of another product or not active: rejected for that, before the clock is looked at.
    have hfault : license.fault? request now ≠ none := fun h ↦
      hlive ⟨(License.live_of_fault?_eq_none h).1, (License.live_of_fault?_eq_none h).2.1⟩
    have hexpiry : ¬ (license.fault? request now = some .expired ∧ license.status = .active) :=
      fun h ↦ hlive ⟨((License.fault?_eq_expired_iff h.2).1 h.1).1, h.2⟩
    rw [if_neg hexpiry, if_neg fun h ↦ hfault h.1]
    exact if_pos (Decidable.not_and_iff_or_not.1 hlive)

/-- A license is accepted exactly when it fails no check. -/
theorem verdict_isValid_iff :
    (verdict (some license) request now).isValid = true ↔ license.fault? request now = none := by
  have hne : license.fault? request now ≠ some .valid := by
    rw [License.fault?_eq_findSome?]
    exact fun h ↦ (Check.findSome?_failure?_eq_some_iff.1 h).reason_ne_valid rfl
  rw [verdict]
  cases hfault : license.fault? request now <;>
    simp_all [Verdict.rejected, Verdict.isValid]

/-- **A follow-up leaves behind what the rules say.** -/
theorem followUp?_followsUp {store : LicenseStore} {found : Option License}
    (hfound : store.Has request.key found) :
    FollowsUp store request now (verdict found request now) (followUp? found request now) := by
  rcases found with - | license
  · refine ⟨fun id ↦ ?_, fun id metadata ↦ ?_, fun id ↦ ?_⟩ <;>
      simp [hfound.exists_iff, followUp?]
  · have hreason : (verdict (some license) request now).reason = .expired ↔
        license.fault? request now = some .expired := by
      rw [verdict]
      cases license.fault? request now <;> simp [Verdict.rejected]
    rw [followUp?_some]
    refine ⟨fun id ↦ ?_, fun id metadata ↦ ?_, fun id ↦ ?_⟩
    · simp only [hfound.exists_iff, Option.some.injEq, exists_eq_left', hreason]
      split
      · next h => simp [h]
      · next h =>
        refine iff_of_false ?_ fun h' ↦ h ⟨h'.1, h'.2.1⟩
        split <;> simp
    · simp only [hfound.exists_iff, Option.some.injEq, exists_eq_left', verdict_isValid_iff]
      split
      · next h => simp [h]
      · split
        · next h =>
          simp only [Option.some.injEq, Task.enrich.injEq]
          constructor
          · rintro ⟨rfl, rfl⟩
            exact ⟨h.1, rfl, rfl, h.2⟩
          · rintro ⟨-, rfl, rfl, -⟩
            exact ⟨rfl, rfl⟩
        · next h =>
          refine iff_of_false (by simp) ?_
          rintro ⟨hnone, -, rfl, hne⟩
          exact h ⟨hnone, hne⟩
    · split
      · simp
      · split <;> simp

end Licensing
