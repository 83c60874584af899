import Licensing.Proofs.ApiKey.Lifetime
import Licensing.Proofs.Http.Failing
import Licensing.Proofs.Http.Traffic
import Licensing.Proofs.System.Calls
import Licensing.Proofs.System.Detaching
import Licensing.Proofs.System.Twins

/-!
# What agents cannot tell apart

Of a license an agent gets to see whether it is valid, why not, its status, its expiry, and the
fields of its metadata that may be told. What decides about this are these, the product and the two
fields that bind the license; two licenses that agree on all of it look alike
(`License.LooksLike`). Validations leave two kinds of tasks behind that write to licenses, and
neither makes a difference to this: a license that is expired is expired in both stores, and to note
an acceptance changes no field that is looked at, so it does not matter if it is noted in one of
them only.

So requests to validate are twins in stores that look alike (`Service.twins_serve`), and what is
shared goes on to look alike (`LicenseStore.keeps_likeness`). The main result is
`Service.tells_no_more`.

Shape decision: that two stores go on to look alike is said by way of a third, from which both have
come by the tasks of validations (`LicenseStore.Kin`). It does not change, so what an enrichment may
write can be said once and for all.
-/

namespace Licensing

open Program (Only Twins)

/-! ### Licenses that look alike -/

/-- The fields of metadata that matter to an agent: those that it may be told, and those that bind a
license. -/
def Metadata.regarded : List String := disclosed ++ [deviceId, userId]

/-- The values agree on what matters to an agent. -/
def Metadata.SameRegarded (a b : Option Json) : Prop :=
  ∀ name ∈ regarded, field? a name = field? b name

/-- The same by the names as they stand in the metadata. -/
theorem Metadata.sameRegarded_iff_named {a b : Option Json} : SameRegarded a b ↔
    field? a "features" = field? b "features" ∧ field? a "limits" = field? b "limits" ∧
      field? a "device_id" = field? b "device_id" ∧ field? a "user_id" = field? b "user_id" := by
  simp [SameRegarded, regarded, disclosed, deviceId, userId]

theorem Metadata.SameRegarded.trans {a b c : Option Json} (hab : SameRegarded a b)
    (hbc : SameRegarded b c) : SameRegarded a c :=
  fun name hname ↦ (hab name hname).trans (hbc name hname)

theorem Metadata.SameRegarded.symm {a b : Option Json} (h : SameRegarded a b) : SameRegarded b a :=
  fun name hname ↦ (h name hname).symm

/-- Noting an acceptance does not matter to an agent. -/
theorem Metadata.sameRegarded_enriched (base : Option Json) (now : Instant) (ip : Option String) :
    SameRegarded base (some (enriched base now ip)) := by
  refine fun name hname ↦ agree_enriched base now ip name ?_ ?_
  · rintro rfl
    exact absurd hname (by decide)
  · rintro rfl
    exact absurd hname (by decide)

/-- An agent cannot tell the licenses apart. Everything else may be different: type, customer, the
dates of issue, creation and change, and all other metadata. -/
structure License.LooksLike (a b : License) : Prop where
  id : a.id = b.id
  key : a.key = b.key
  product : a.product = b.product
  status : a.status = b.status
  expiresAt : a.expiresAt = b.expiresAt
  metadata : Metadata.SameRegarded a.metadata b.metadata

namespace License.LooksLike

variable {a b : License}

theorem fault?_eq (h : a.LooksLike b) (request : ValidationRequest) (now : Instant) :
    a.fault? request now = b.fault? request now := by
  have hdevice := bindingFault?_congr (h.metadata Metadata.deviceId (by decide))
  have huser := bindingFault?_congr (h.metadata Metadata.userId (by decide))
  unfold License.fault?
  simp only [h.product, h.status, License.isExpiredAt_congr h.expiresAt, hdevice, huser]

theorem disclosure?_eq (h : a.LooksLike b) :
    Metadata.disclosure? a.metadataFields? = Metadata.disclosure? b.metadataFields? :=
  Metadata.disclosure?_eq_of_agree fun name hname ↦ h.metadata name (List.mem_append_left _ hname)

/-- **The verdicts look the same** to an agent, and are counted as the same. -/
theorem verdict_eq (h : a.LooksLike b) (request : ValidationRequest) (now : Instant) :
    (verdict (some a) request now).reason = (verdict (some b) request now).reason ∧
      Http.View.verdict (verdict (some a) request now) =
        Http.View.verdict (verdict (some b) request now) := by
  simp only [verdict, h.fault?_eq request now]
  rcases b.fault? request now with - | reason
  · refine ⟨rfl, ?_⟩
    simp only [Http.View.verdict, Verdict.isValid, Option.map_some, Option.bind_some, h.status,
      h.expiresAt, h.disclosure?_eq]
  · refine ⟨rfl, ?_⟩
    simp only [Http.View.verdict, Verdict.rejected, Verdict.isValid, Option.map_some,
      Option.bind_some, h.status, h.expiresAt]
    rfl

/-- **The tasks that follow are the same**, unless one license or both are to have an acceptance
noted. -/
theorem followUp?_eq (h : a.LooksLike b) (request : ValidationRequest) (now : Instant) :
    let ip := (Metadata.Claims.ofJson request.metadata).ipAddress
    (followUp? (some a) request now = followUp? (some b) request now ∧
        ∀ task, followUp? (some b) request now = some task → task = .expire b.id) ∨
      (∀ task, followUp? (some a) request now = some task →
        task = .enrich a.id (Metadata.enriched a.metadata now ip)) ∧
      ∀ task, followUp? (some b) request now = some task →
        task = .enrich b.id (Metadata.enriched b.metadata now ip) := by
  intro ip
  have henrich : ∀ license : License, license.fault? request now = none → ∀ task,
      followUp? (some license) request now = some task →
        task = .enrich license.id (Metadata.enriched license.metadata now ip) := by
    intro license hfault task htask
    rw [followUp?_some, hfault, if_neg (by simp)] at htask
    split at htask
    · cases htask
      rfl
    · cases htask
  rcases hfault : b.fault? request now with - | reason
  · exact .inr ⟨henrich a ((h.fault?_eq request now).trans hfault), henrich b hfault⟩
  · refine .inl ?_
    simp only [followUp?_some, h.fault?_eq request now, hfault, h.status, h.id, reduceCtorEq,
      false_and, if_false]
    refine ⟨trivial, fun task htask ↦ ?_⟩
    split at htask
    · cases htask
      rfl
    · cases htask

end License.LooksLike

/-! ### Stores that look alike -/

/-- What the tasks of validations can have made of a license, as far as it matters to an agent, its
status apart. -/
structure License.Kin (origin current : License) : Prop where
  id : current.id = origin.id
  key : current.key = origin.key
  product : current.product = origin.product
  expiresAt : current.expiresAt = origin.expiresAt
  metadata : Metadata.SameRegarded origin.metadata current.metadata

namespace LicenseStore

/-- What the tasks of validations can have made of a store. -/
structure Kin (first current : LicenseStore) : Prop where
  byKey : ∀ key, current.byKey.get? key = first.byKey.get? key
  byId : ∀ id, Option.Rel License.Kin (first.byId.get? id) (current.byId.get? id)

/-- What is found in the one store looks like what is found in the other, and goes back to what is
stored in the first. -/
structure Sees (first : LicenseStore) (a b : License) : Prop where
  looksLike : a.LooksLike b
  regarded : ∀ origin, first.byId.get? a.id = some origin →
    Metadata.SameRegarded origin.metadata a.metadata

variable {first store : LicenseStore}

theorem Kin.changed (h : first.Kin store) (id : Uuid) {f : License → License}
    (hf : ∀ origin license, first.byId.get? id = some origin → origin.Kin license →
      origin.Kin (f license)) : first.Kin (store.changed id f) where
  byKey := h.byKey
  byId := rel_changed h.byId id hf

end LicenseStore

/-- The stores look alike to agents: they hold the same keys of agents, and licenses that go back to
the same store and have the same statuses. -/
structure Shared.LooksLike (first : LicenseStore) (x y : Shared) : Prop where
  now : x.now = y.now
  keys : x.stores.keys = y.stores.keys
  left : first.Kin x.stores.licenses
  right : first.Kin y.stores.licenses
  status : ∀ id, (x.stores.licenses.byId.get? id).map (·.status) =
    (y.stores.licenses.byId.get? id).map (·.status)

namespace Shared.LooksLike

variable {first : LicenseStore} {x y : Shared}

theorem symm (h : x.LooksLike first y) : y.LooksLike first x where
  now := h.now.symm
  keys := h.keys.symm
  left := h.right
  right := h.left
  status id := (h.status id).symm

/-- What is found under a key looks alike. -/
theorem findByKey (h : x.LooksLike first y) (hfirst : first.Indexed) (key : String) :
    Option.Rel first.Sees (x.stores.licenses.findByKey key) (y.stores.licenses.findByKey key) := by
  unfold LicenseStore.findByKey
  rw [h.left.byKey, h.right.byKey]
  rcases first.byKey.get? key with - | id
  · exact .none
  · show Option.Rel _ (x.stores.licenses.byId.get? id) (y.stores.licenses.byId.get? id)
    have hleft := h.left.byId id
    have hright := h.right.byId id
    have hstatus := h.status id
    generalize hstored : first.byId.get? id = origin? at hleft hright
    generalize x.stores.licenses.byId.get? id = a? at hleft hstatus ⊢
    generalize y.stores.licenses.byId.get? id = b? at hright hstatus ⊢
    rcases hleft with @⟨origin, a, ha⟩ | -
    · rcases hright with @⟨_, b, hb⟩
      refine .some ⟨⟨?_, ?_, ?_, Option.some.inj hstatus, ?_, ?_⟩, fun other hother ↦ ?_⟩
      · rw [ha.id, hb.id]
      · rw [ha.key, hb.key]
      · rw [ha.product, hb.product]
      · rw [ha.expiresAt, hb.expiresAt]
      · exact ha.metadata.symm.trans hb.metadata
      · rw [ha.id, hfirst.id_eq hstored, hstored] at hother
        cases hother
        exact ha.metadata
    · cases hright
      exact .none

/-- A change to the licenses of the one side that leaves all statuses as they were. -/
theorem changed_left (h : x.LooksLike first y) (id : Uuid) {f : License → License}
    (hf : ∀ origin license, first.byId.get? id = some origin → origin.Kin license →
      origin.Kin (f license)) (hstatus : ∀ license, (f license).status = license.status) :
    (x.withLicenses (x.stores.licenses.changed id f)).LooksLike first y where
  now := h.now
  keys := h.keys
  left := h.left.changed id hf
  right := h.right
  status wanted := by
    rw [← h.status wanted, licenses_withLicenses, LicenseStore.get?_changed]
    split
    · rw [Option.map_map]
      exact congrArg (Option.map · _) (funext hstatus)
    · rfl

/-- Expiring the same license on both sides. -/
theorem expired (h : x.LooksLike first y) (id : Uuid) :
    (x.withLicenses (x.stores.licenses.changed id (·.withStatus .expired x.now))).LooksLike first
      (y.withLicenses (y.stores.licenses.changed id (·.withStatus .expired y.now))) where
  now := h.now
  keys := h.keys
  left := h.left.changed id fun _ _ _ hkin ↦ { hkin with }
  right := h.right.changed id fun _ _ _ hkin ↦ { hkin with }
  status wanted := by
    have hstatus := h.status wanted
    simp only [licenses_withLicenses, LicenseStore.get?_changed]
    split
    · generalize x.stores.licenses.byId.get? wanted = a? at hstatus ⊢
      generalize y.stores.licenses.byId.get? wanted = b? at hstatus ⊢
      cases a? <;> cases b? <;> first | rfl | cases hstatus
    · exact hstatus

end Shared.LooksLike

/-- Stores whose licenses look alike do so at the start. -/
theorem Shared.looksLike_of_indexed {a b : LicenseStore} (ha : a.Indexed) (hb : b.Indexed)
    (halike : ∀ id, Option.Rel License.LooksLike (a.byId.get? id) (b.byId.get? id))
    (keys : ApiKeyStore) (now : Instant) :
    Shared.LooksLike a ⟨⟨a, keys⟩, now⟩ ⟨⟨b, keys⟩, now⟩ where
  now := rfl
  keys := rfl
  left := by
    refine ⟨fun _ ↦ rfl, fun id ↦ ?_⟩
    cases a.byId.get? id with
    | none => exact .none
    | some license => exact .some ⟨rfl, rfl, rfl, rfl, fun _ _ ↦ rfl⟩
  right := by
    have hstored : ∀ id key, (∃ license, b.byId.get? id = some license ∧ license.key = key) ↔
        ∃ license, a.byId.get? id = some license ∧ license.key = key := by
      intro id key
      have hid := halike id
      generalize a.byId.get? id = a? at hid ⊢
      generalize b.byId.get? id = b? at hid ⊢
      rcases hid with hlicense | -
      · simp only [Option.some.injEq, exists_eq_left', hlicense.key]
      · exact Iff.rfl
    refine ⟨fun key ↦ Option.ext fun id ↦ ?_, fun id ↦ ?_⟩
    · rw [hb.byKey_iff, ha.byKey_iff, hstored]
    · have hid := halike id
      generalize a.byId.get? id = a? at hid ⊢
      generalize b.byId.get? id = b? at hid ⊢
      rcases hid with hlicense | -
      · exact .some ⟨hlicense.id.symm, hlicense.key.symm, hlicense.product.symm,
          hlicense.expiresAt.symm, hlicense.metadata⟩
      · exact .none
  status id := by
    have hid := halike id
    generalize a.byId.get? id = a? at hid ⊢
    generalize b.byId.get? id = b? at hid ⊢
    rcases hid with hlicense | -
    · exact congrArg some hlicense.status
    · rfl

/-! ### What twins have in common -/

/-- Effects that answering an agent can have: of the calls only lookups by a key, and of the tasks
all but the note of an acceptance. -/
def Effect.OfAgents : Effect → Prop
  | .store (.findByKey _) | .store (.findEnabledKey _) => True
  | .store _ => False
  | .submit task => task.name ≠ "metadata_enrichment"
  | _ => True

namespace LicenseStore

/-- Answers that are alike: what is found under the key of a license looks alike, all else is the
same. -/
def Alike (first : LicenseStore) : (effect : Effect) → effect.Answer → effect.Answer → Prop
  | .store (.findByKey _), answer, answer' =>
    match answer, answer' with
    | .ok found, .ok found' => Option.Rel first.Sees found found'
    | .error failure, .error failure' => failure = failure'
    | _, _ => False
  | _, answer, answer' => answer = answer'

/-- The note of an acceptance that changes nothing that matters to an agent. -/
def Enriches (first : LicenseStore) : Task → Prop
  | .enrich id metadata => ∀ origin, first.byId.get? id = some origin →
      Metadata.SameRegarded origin.metadata (some metadata)
  | _ => False

/-- How far the answers to agents may differ between stores that go back to the same one. -/
def likeness (first : LicenseStore) : Likeness where
  Common := Effect.OfAgents
  Alike := first.Alike
  Aside := first.Enriches
  asideName := "metadata_enrichment"
  alike_silent effect h answer := by
    cases effect with
    | submit | count | log => rfl
    | store | clock | freshId | drawKey => cases h
  name_of_aside {task} h := by
    cases task with
    | enrich => rfl
    | expire | noteUse => cases h
  name_of_common h := h

variable {first : LicenseStore}

/-- **What looks alike goes on to look alike**, whatever is done to answer agents. -/
theorem keeps_likeness (hfirst : first.Indexed) :
    first.likeness.Keeps (Shared.LooksLike first) where
  symm := Shared.LooksLike.symm
  perform {x y effect} h hcommon chance := by
    cases effect with
    | store call =>
      rcases hchance : chance.failure with - | failure
      · cases call with
        | findByKey key =>
          simp only [Shared.perform_store_of_none hchance]
          exact ⟨h.findByKey hfirst key, h⟩
        | findEnabledKey lookup =>
          simp only [Shared.perform_store_of_none hchance]
          refine ⟨?_, h⟩
          show Except.ok (x.stores.keys.findEnabled lookup) = _
          rw [h.keys]
          rfl
        | _ => cases hcommon
      · rw [Shared.perform_store_of_failure hchance, Shared.perform_store_of_failure hchance]
        refine ⟨?_, h⟩
        cases call <;> rfl
    | clock => exact ⟨h.now, h⟩
    | freshId | drawKey | submit | count | log => exact ⟨rfl, h⟩
  both {x y task} h hname chance := by
    rcases hchance : chance.failure with - | failure
    · cases task with
      | expire id =>
        rw [Shared.worked_of_none hchance, Shared.worked_of_none hchance, Stores.worked_expire,
          Stores.worked_expire]
        exact h.expired id
      | noteUse id =>
        rw [Shared.worked_of_none hchance, Shared.worked_of_none hchance, Stores.worked_noteUse,
          Stores.worked_noteUse, h.keys, h.now]
        exact { h with keys := rfl, now := rfl }
      | enrich => exact absurd rfl hname
    · rwa [Shared.worked_of_failure hchance, Shared.worked_of_failure hchance]
  aside {x y task} h haside chance := by
    rcases hchance : chance.failure with - | failure
    · cases task with
      | enrich id metadata =>
        rw [Shared.worked_of_none hchance, Stores.worked_enrich]
        refine h.changed_left id (fun origin license horigin hkin ↦ ?_) fun _ ↦ rfl
        exact { hkin with metadata := haside origin horigin }
      | expire | noteUse => cases haside
    · rwa [Shared.worked_of_failure hchance]

end LicenseStore

/-! ### Answering agents -/

variable {first : LicenseStore}

/-- An effect that twins share, and that is answered the same to both. -/
def LicenseStore.Plain (first : LicenseStore) (effect : Effect) : Prop :=
  effect.OfAgents ∧ ∀ answer answer', first.Alike effect answer answer' → answer = answer'

/-- What stays within a program is plain. -/
theorem LicenseStore.plain_of_local (first : LicenseStore) {α : Type} {p : Program α}
    (h : p.Only Effect.Local) : p.Only first.Plain := by
  refine h.mono fun effect hlocal ↦ ?_
  cases effect with
  | store | submit => cases hlocal
  | clock | freshId | drawKey | count | log => exact ⟨trivial, fun _ _ halike ↦ halike⟩

/-- What is plain throughout is its own twin. -/
theorem LicenseStore.twins_of_plain (first : LicenseStore) {α : Type} {p : Program α}
    (h : p.Only first.Plain) : p.Twins first.likeness (· = ·) p := .of_only h

namespace License

/-- The results look the same to an agent. -/
def SameView {ε : Type} (result result' : Except ε Verdict) : Prop :=
  result.map Http.View.verdict = result'.map Http.View.verdict

theorem twins_judge {found found' : Option License} (h : Option.Rel first.Sees found found')
    (request : ValidationRequest) (now : Instant) :
    Twins first.likeness SameView (judge found request now) (judge found' request now) := by
  have hnoted : ∀ {v v' : Verdict}, v.reason = v'.reason →
      Http.View.verdict v = Http.View.verdict v' → Twins first.likeness (@SameView Failure)
        (.act (.count (.validations v.reason) 1) fun _ ↦ .done (.ok v))
        (.act (.count (.validations v'.reason) 1) fun _ ↦ .done (.ok v')) := by
    intro v v' hreason hview
    rw [hreason]
    exact .act trivial fun _ _ _ ↦ .done (congrArg Except.ok hview)
  unfold judge
  rcases h with @⟨a, b, hsees⟩ | -
  · obtain ⟨hreason, hview⟩ := hsees.looksLike.verdict_eq request now
    have hrest := hnoted hreason hview
    rcases hsees.looksLike.followUp?_eq request now with ⟨heq, hexpire⟩ | ⟨ha, hb⟩
    · rw [heq]
      rcases htask : followUp? (some b) request now with - | task
      · exact hrest
      · rw [hexpire task htask]
        have hname : "lazy_expire" ≠ "metadata_enrichment" := by decide
        exact .act hname fun _ _ _ ↦ hrest
    · -- Either may note the acceptance on its own.
      have hleft : ∀ task, followUp? (some a) request now = some task → first.Enriches task := by
        intro task htask
        rw [ha task htask]
        exact fun origin horigin ↦
          (hsees.regarded origin horigin).trans (Metadata.sameRegarded_enriched _ _ _)
      have hright : ∀ task, followUp? (some b) request now = some task → first.Enriches task := by
        intro task htask
        rw [hb task htask]
        intro origin horigin
        rw [← hsees.looksLike.id] at horigin
        exact (hsees.regarded origin horigin).trans
          (hsees.looksLike.metadata.trans (Metadata.sameRegarded_enriched _ _ _))
      rcases hfirst : followUp? (some a) request now with - | task
      · rcases hsecond : followUp? (some b) request now with - | task'
        · exact hrest
        · exact .right (hright task' hsecond) hrest
      · rcases hsecond : followUp? (some b) request now with - | task'
        · exact .left (hleft task hfirst) hrest
        · exact .left (hleft task hfirst) (.right (hright task' hsecond) hrest)
  · exact hnoted rfl rfl

/-- **Validations are twins** in stores that look alike. -/
theorem twins_validate (first : LicenseStore) (request : ValidationRequest) :
    (License.validate request).run.Twins first.likeness SameView
      (License.validate request).run := by
  rw [validate_eq]
  refine .act trivial ?_
  rintro (failure | found) (failure' | found') halike
  · cases halike
    exact .done rfl
  · exact halike.elim
  · exact halike.elim
  · refine .act trivial fun now now' hnow ↦ ?_
    cases hnow
    exact twins_judge halike request now

end License

theorem ApiKey.plain_check (first : LicenseStore) (format : CredentialFormat)
    (presented : Option String) : (check format presented).Only first.Plain := by
  rcases check_cases format presented with ⟨cause, heq⟩ | ⟨credential, heq⟩
  · rw [heq]
    trivial
  · rw [heq]
    refine ⟨⟨trivial, fun _ _ halike ↦ halike⟩, fun answer ↦ ?_⟩
    rcases judge_cases credential answer with ⟨_, -, hend⟩ | ⟨_, -, hend⟩ | ⟨key, -, hend⟩
    · rw [hend]
      trivial
    · rw [hend]
      trivial
    · rw [hend]
      have hname : "api_key_last_used" ≠ "metadata_enrichment" := by decide
      exact ⟨⟨hname, fun _ _ halike ↦ halike⟩, fun _ ↦ trivial⟩

namespace Http

variable {service : Service} {request : Request}

open Handler (local_fail local_form local_ofResult)

theorem Handler.plain_agent (first : LicenseStore) (service : Service) (request : Request) :
    (agent service request).run.Only first.Plain := by
  have hadmitted : ∀ presented, (admitted service presented).Only first.Plain := by
    intro presented
    refine Only.bind (Only.bind (ApiKey.plain_check first service.format presented) ?_) ?_
    · exact fun result ↦ first.plain_of_local ⟨trivial, fun _ ↦ trivial⟩
    · exact fun result ↦ first.plain_of_local (local_ofResult result)
  rw [agent_eq]
  split
  · exact hadmitted none
  · split
    · exact hadmitted _
    · trivial

/-- What looks the same as the result of an operation does as that of a handler. -/
theorem Handler.twins_perform {op : Operation Verdict}
    (h : op.run.Twins first.likeness License.SameView op.run) :
    (perform op).run.Twins first.likeness License.SameView (perform op).run := by
  rw [run_perform]
  refine h.bind ?_
  rintro (failure | verdict) (failure' | verdict') hsame
  · cases hsame
    refine (first.twins_of_plain (first.plain_of_local (local_fail failure))).mono ?_
    rintro result _ rfl
    rfl
  · cases hsame
  · cases hsame
  · have hview : View.verdict verdict = View.verdict verdict' := Except.ok.inj hsame
    exact .done (congrArg Except.ok hview)

/-- **Agents get the same answer** from stores that look alike. -/
theorem Endpoint.twins_validate (first : LicenseStore) (service : Service) (request : Request) :
    (validate service request).run.Twins first.likeness (· = ·) (validate service request).run := by
  unfold validate
  rw [Handler.run_bind]
  refine (first.twins_of_plain (Handler.plain_agent first service request)).bind ?_
  rintro (refusal | holder) _ rfl
  · exact .done rfl
  show Twins _ _ (Handler.form request .validate >>= _ : Handler Response).run
    (Handler.form request .validate >>= _ : Handler Response).run
  rw [Handler.run_bind]
  refine (first.twins_of_plain (first.plain_of_local (local_form request .validate))).bind ?_
  rintro (refusal | question) _ rfl
  · exact .done rfl
  show Twins _ _ (Handler.perform (License.validate question) >>= _ : Handler Response).run
    (Handler.perform (License.validate question) >>= _ : Handler Response).run
  rw [Handler.run_bind]
  refine (Handler.twins_perform (License.twins_validate first question)).bind ?_
  rintro (refusal | verdict) (refusal' | verdict') hsame
  · cases hsame
    exact .done rfl
  · cases hsame
  · cases hsame
  · exact .done (congrArg (fun view ↦ Except.ok (Response.json 200 view)) (Except.ok.inj hsame))

namespace Service

/-- **A request for a validation is its own twin** in stores that look alike. -/
theorem twins_serve (first : LicenseStore) (service : Service)
    (hpath : Route.ofPath? request.path = some .validation) :
    (service.serve request).Twins first.likeness (· = ·) (service.serve request) := by
  have hrespond : (respond service request).Twins first.likeness (· = ·)
      (respond service request) := by
    rcases respond_cases service request with
      ⟨response, heq⟩ | ⟨route, handler, hroute, hendpoint, heq⟩
    · rw [heq]
      exact .done rfl
    · rw [heq]
      cases hpath.symm.trans hroute
      generalize request.answeredAs = method at hendpoint
      cases method <;> cases hendpoint
      refine (Endpoint.twins_validate first service request).bind ?_
      rintro result _ rfl
      exact .done rfl
  have hplain : ∀ {α : Type} {p : Program α}, p.Only Effect.Local →
      p.Twins first.likeness (· = ·) p := fun h ↦ first.twins_of_plain (first.plain_of_local h)
  rcases hunobserved : service.unobserved? request with - | response
  · rw [serve_eq hunobserved]
    refine (hplain local_requestId).bind ?_
    rintro id _ rfl
    refine .act trivial fun _ _ _ ↦ hrespond.bind ?_
    rintro response _ rfl
    exact hplain ((local_countAll _).bind fun _ ↦ trivial)
  · unfold serve
    rw [hunobserved]
    exact .done rfl

end Service

namespace Traffic

variable {t u : Traffic}

/-- **A move** by which nobody asks for anything but a validation. -/
theorem twins_step (hfirst : first.Indexed)
    (h : t.Akin (Shared.LooksLike first) (Strand.Twins first.likeness) u) {move : Move}
    (hmove : ∀ request, move = .ask request → Route.ofPath? request.path = some .validation) :
    (t.step service move).Akin (Shared.LooksLike first) (Strand.Twins first.likeness)
      (u.step service move) := by
  have hkeeps := LicenseStore.keeps_likeness hfirst
  cases move with
  | wait now => exact ⟨{ h.shared with now := rfl }, h.strands⟩
  | ask request => exact h.ask (.ofProgram (Service.twins_serve first service (hmove request rfl)))
  | proceed k chance => exact h.turn k fun _ _ htwins ↦ htwins.proceed hkeeps h.shared chance
  | work k name chance => exact h.turn k fun _ _ htwins ↦ htwins.work hkeeps h.shared name chance

end Traffic

namespace Service

/-- **Agents learn nothing of a license beyond what they may.** Take two stores of licenses with the
same identifiers and keys, whose licenses agree on product, status, expiry and on what is stored
under the names of metadata that matter to agents, and may differ in everything else. Then any
requests to validate, with any readings of the clock, with their tasks done in any order, failing or
dropped, get the same responses from both. -/
theorem tells_no_more (service : Service) {a b : LicenseStore} (ha : a.Indexed) (hb : b.Indexed)
    (halike : ∀ id, Option.Rel License.LooksLike (a.byId.get? id) (b.byId.get? id))
    (keys : ApiKeyStore) (now : Instant) (script : List Move)
    (hscript : ∀ request, .ask request ∈ script →
      Route.ofPath? request.path = some .validation) :
    service.answers script ⟨⟨a, keys⟩, now⟩ = service.answers script ⟨⟨b, keys⟩, now⟩ := by
  have hstart : Traffic.Akin (Shared.LooksLike a) (Strand.Twins a.likeness)
      ⟨⟨⟨a, keys⟩, now⟩, []⟩ ⟨⟨⟨b, keys⟩, now⟩, []⟩ :=
    ⟨Shared.looksLike_of_indexed ha hb halike keys now, .nil⟩
  have hmoves : List.Forall₂ (fun move move' ↦ move = move' ∧ ∀ request, move = .ask request →
      Route.ofPath? request.path = some .validation) script script := by
    refine List.forall₂_same.2 fun move hmem ↦ ⟨rfl, ?_⟩
    rintro request rfl
    exact hscript request hmem
  refine (Traffic.rel_after ?_ hmoves hstart).answers_eq fun _ _ htwins ↦ htwins.value?_eq
  rintro t u move _ h ⟨rfl, hmove⟩
  exact Traffic.twins_step ha h hmove

/-- A store with the key of one agent. -/
def oneAgent : ApiKeyStore :=
  .added .empty { (default : ApiKey) with
    hash := hashKey "lm_aaaaaaaa_s", lookup := "aaaaaaaa", isEnabled := true }

/-- The agent asks about the license of a key. -/
def asking : Request where
  method := .post
  path := "/api/v1/licenses/validate"
  headers := [("content-type", "application/json"), ("x-api-key", "lm_aaaaaaaa_s"),
    ("x-request-id", "1")]
  body := Text.Utf8.encodeString "\x7b\"license_key\":\"K\",\"product_name\":\"app\"\x7d"

/-- A license for one feature. -/
def sold : License :=
  { License.fresh ⟨0⟩ ⟨1⟩ "K" "standard" "app" .active with
    metadata := some (.object [("features", .array [.string "export"]), ("margin", .int 80)]) }

/-- The same license to an agent, given away to somebody. -/
def givenAway : License :=
  { sold with
    kind := "trial"
    customerName := some "Ann"
    metadata := some (.object [("features", .array [.string "export"]), ("last_ip", .int 0)]) }

/-- The agent asks, the use of its key and the acceptance are noted, and it asks again. -/
def askingTwice : List Move :=
  [.ask asking, .proceed 0 {}, .proceed 0 {}, .proceed 0 {}, .work 0 "api_key_last_used" {},
    .wait ⟨9⟩, .work 0 "metadata_enrichment" {}, .ask asking, .proceed 1 {}, .proceed 1 {},
    .proceed 1 {}]

/-- The agent is told twice that the license is valid, and cannot tell the two apart. -/
theorem tells_no_more_twice :
    (LicenseStore.single sold).Indexed ∧ (LicenseStore.single givenAway).Indexed ∧
    (∀ id, Option.Rel License.LooksLike ((LicenseStore.single sold).byId.get? id)
      ((LicenseStore.single givenAway).byId.get? id)) ∧
    (∀ request, .ask request ∈ askingTwice → Route.ofPath? request.path = some .validation) ∧
    (({} : Service).answers askingTwice ⟨⟨.single sold, oneAgent⟩, ⟨5⟩⟩).map
      (·.map Response.status) = [some 200, some 200] ∧
    ({} : Service).answers askingTwice ⟨⟨.single sold, oneAgent⟩, ⟨5⟩⟩ =
      ({} : Service).answers askingTwice ⟨⟨.single givenAway, oneAgent⟩, ⟨5⟩⟩ := by
  have hsold : (LicenseStore.single sold).Indexed := LicenseStore.indexed_single sold
  have hgiven : (LicenseStore.single givenAway).Indexed := LicenseStore.indexed_single givenAway
  have hlicense : sold.LooksLike givenAway :=
    ⟨rfl, rfl, rfl, rfl, rfl, Metadata.sameRegarded_iff_named.2 ⟨rfl, rfl, rfl, rfl⟩⟩
  have halike : ∀ id, Option.Rel License.LooksLike ((LicenseStore.single sold).byId.get? id)
      ((LicenseStore.single givenAway).byId.get? id) := by
    intro id
    show Option.Rel _ ((Table.empty.insert ⟨1⟩ sold).get? id)
      ((Table.empty.insert ⟨1⟩ givenAway).get? id)
    rw [Table.get?_insert, Table.get?_insert]
    split
    · exact .some hlicense
    · exact .none
  have hscript : ∀ request, .ask request ∈ askingTwice →
      Route.ofPath? request.path = some .validation := by
    intro request hmem
    simp only [askingTwice, List.mem_cons, reduceCtorEq, Move.ask.injEq, List.not_mem_nil,
      or_false, false_or, or_self] at hmem
    rw [hmem]
    decide
  refine ⟨hsold, hgiven, halike, hscript, ?_, ?_⟩
  · decide +kernel
  · exact tells_no_more {} hsold hgiven halike oneAgent ⟨5⟩ askingTwice hscript

end Service

end Http

end Licensing
