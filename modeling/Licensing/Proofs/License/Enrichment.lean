import Licensing.Proofs.License.Snapshots
import Licensing.Proofs.License.Verdict

/-!
# Notes of acceptances among other writes

A validation that accepts leaves a task behind that writes the whole of the metadata: what was
looked up, with the acceptance noted. Tasks of several validations may run in any order, any time
later, or never.

Where no operator writes metadata, the race is confined to the two names under which acceptances are
noted (`Chronicle.Reached.noted`): what the license has there is what it had at first, or comes from
one of its acceptances, and all else is as it was. The invariant is about everything that was ever
looked up, since any of that may be written yet.

With an operator in between, a task puts back what its validation had looked up
(`Chronicle.Reached.enriches`), so an amendment in the gap is lost
(`Chronicle.not_forall_sparesAmendments`). What is written by those that have read since the
amendment does not disturb it.

Both results rest on a note going back to an acceptance (`Sound.glimpse_of_updateMetadata`): it is
what the validation has looked up, enriched. The first adds that nobody else writes metadata
(`Sound.metadata_cases`), and the second that what has been read since an amendment agrees with it
(`Sound.agree_step`).
-/

namespace Licensing

/-! ### Acceptances -/

/-- A validation of a license was accepted: one of the threads has looked the license up and read
the clock, and the verdict on that is that it is valid. -/
def Accepted (events : List Event) (id : Uuid) (request : ValidationRequest) (now : Instant) :
    Prop :=
  ∃ license, ∃ look ∈ events, ∃ read ∈ events, look.thread = read.thread ∧
    look.origin = .demand (.validate request) ∧
    look.turn = ⟨.store (.findByKey request.key), .ok (some license)⟩ ∧
    read.turn = ⟨.clock, now⟩ ∧ license.id = id ∧
    (verdict (some license) request now).isValid = true

theorem Accepted.mono {events : List Event} {id : Uuid} {request : ValidationRequest}
    {now : Instant} (h : Accepted events id request now) (more : List Event) :
    Accepted (events ++ more) id request now := by
  obtain ⟨license, look, hlook, read, hread, haccepted⟩ := h
  exact ⟨license, look, List.mem_append_left more hlook, read, List.mem_append_left more hread,
    haccepted⟩

namespace Metadata

/-- The metadata are the first ones, but that acceptances may have been noted. -/
structure Noted (accepted : ValidationRequest → Instant → Prop) (first current : Option Json) :
    Prop where
  agree : Agree first current
  time : field? current lastValidatedAt = field? first lastValidatedAt ∨
    ∃ request now, accepted request now ∧
      field? current lastValidatedAt = some (.string (Time.Rfc3339.toTextNanos now))
  address : field? current lastIp = field? first lastIp ∨
    ∃ request now ip, accepted request now ∧ Holds request.metadata ipAddress ip ∧
      field? current lastIp = some (.string ip)

namespace Noted

variable {accepted : ValidationRequest → Instant → Prop} {first current : Option Json}

/-- The same by the names as they stand in the metadata. -/
protected theorem iff_named : Noted accepted first current ↔
    (∀ name, name ≠ "last_validated_at" → name ≠ "last_ip" →
      field? first name = field? current name) ∧
    (field? current "last_validated_at" = field? first "last_validated_at" ∨
      ∃ request now, accepted request now ∧
        field? current "last_validated_at" = some (.string (Time.Rfc3339.toTextNanos now))) ∧
    (field? current "last_ip" = field? first "last_ip" ∨
      ∃ request now ip, accepted request now ∧ Holds request.metadata "ip_address" ip ∧
        field? current "last_ip" = some (.string ip)) :=
  ⟨fun ⟨hagree, htime, haddress⟩ ↦ ⟨hagree, htime, haddress⟩,
    fun ⟨hagree, htime, haddress⟩ ↦ ⟨hagree, htime, haddress⟩⟩

protected theorem refl (first : Option Json) : Noted accepted first first :=
  ⟨.refl first, .inl rfl, .inl rfl⟩

/-- Noting one more acceptance. -/
theorem enriched (h : Noted accepted first current) {request : ValidationRequest} {now : Instant}
    (haccepted : accepted request now) :
    Noted accepted first
      (some (Metadata.enriched current now (Claims.ofJson request.metadata).ipAddress)) where
  agree := h.agree.trans (agree_enriched _ _ _)
  time := by
    rw [field?_enriched, if_pos rfl]
    exact .inr ⟨request, now, haccepted, rfl⟩
  address := by
    have hnames : lastIp ≠ lastValidatedAt := by decide
    rw [field?_enriched, if_neg hnames, if_pos rfl]
    rcases hip : (Claims.ofJson request.metadata).ipAddress with - | ip
    · -- An unknown address leaves the one that was there.
      exact h.address
    · rw [claims_eq] at hip
      exact .inr ⟨request, now, ip, haccepted, string?_eq_some_iff.1 hip, rfl⟩

end Noted

end Metadata

/-! ### What is written -/

/-- The demand does not write metadata. -/
def Demand.SparesMetadata : Demand → Prop
  | amend _ amendment => amendment.metadata = none
  | _ => True

/-- An event writes the metadata of a license. -/
inductive Event.SetsMetadata (e : Event) (id : Uuid) : Prop
  | note {metadata : Json} (hturn : e.turn = ⟨.store (.updateMetadata id metadata), .ok ()⟩)
  | edit {edit stored : License} (hturn : e.turn = ⟨.store (.update edit), .ok stored⟩)
      (hid : edit.id = id)

namespace Event

variable {e : Event} {id : Uuid}

/-- Where no event writes metadata, they stay. -/
theorem Changes.metadata_eq {license after : License} (h : e.Changes license after)
    (hkeeps : ¬ e.SetsMetadata license.id) : after.metadata = license.metadata := by
  cases h with
  | same => rfl
  | status => rfl
  | metadata hturn => exact absurd (.note hturn) hkeeps
  | edit hturn hid => exact absurd (.edit hturn hid) hkeeps

/-- A change that went through has found the license. -/
private theorem exists_of_contains {store after : LicenseStore} {f : License → License}
    (h : store.byId.contains id = true) (hafter : after = store.changed id f) :
    ∃ license, after.byId.get? id = some (f license) := by
  obtain ⟨license, hstored⟩ := Option.isSome_iff_exists.1 h
  refine ⟨license, ?_⟩
  rw [hafter, LicenseStore.get?_changed, if_pos rfl, hstored]
  rfl

/-- A note that went through is what the license bears. -/
theorem Answered.exists_noted (h : e.Answered) {metadata : Json}
    (hturn : e.turn = ⟨.store (.updateMetadata id metadata), .ok ()⟩) :
    ∃ current, e.after.stores.licenses.byId.get? id = some current ∧
      current.metadata = some metadata := by
  obtain ⟨hok, hafter⟩ :=
    Prod.mk.inj ((Stores.answer_updateMetadata _ _ id metadata).symm.trans (h.answer_eq hturn))
  split at hok
  · next hcontains =>
    obtain ⟨license, hstored⟩ := exists_of_contains hcontains (congrArg Stores.licenses hafter).symm
    exact ⟨_, hstored, rfl⟩
  · cases hok

/-- An amendment that went through is what the license bears. -/
theorem Answered.exists_edited (h : e.Answered) {edit stored : License}
    (hturn : e.turn = ⟨.store (.update edit), .ok stored⟩) :
    ∃ current, e.after.stores.licenses.byId.get? edit.id = some current ∧
      current.metadata = edit.metadata := by
  obtain ⟨_, -, rfl, hstored⟩ := h.edited hturn
  exact ⟨_, hstored, rfl⟩

end Event

namespace Chronicle

variable {admits : Demand → Prop} {x : Shared} {c : Chronicle} {past future : List Event}
  {e : Event} {id : Uuid}

/-- **A note goes back to an acceptance**: it is what the validation has looked up, enriched. -/
theorem Sound.glimpse_of_updateMetadata (h : c.Sound admits x)
    (hsplit : c.events = past ++ e :: future) {metadata : Json}
    (hcall : e.turn.1 = .store (.updateMetadata id metadata)) :
    ∃ request license now before look since, Glimpse past e.source license now before look since ∧
      look.origin = .demand (.validate request) ∧
      look.turn = ⟨.store (.findByKey request.key), .ok (some license)⟩ ∧ license.id = id ∧
      (verdict (some license) request now).isValid = true ∧
      metadata = Metadata.enriched license.metadata now
        (Metadata.Claims.ofJson request.metadata).ipAddress := by
  obtain ⟨parent, horigin⟩ := ((h.proper hsplit).writes hcall rfl).updateMetadata_cases
  obtain ⟨request, license, now, before, look, since, hglimpse, hvalidate, hfound, hfollows⟩ :=
    h.glimpse_of_task hsplit horigin nofun
  rw [followUp?_some] at hfollows
  split at hfollows
  · cases hfollows
  · split at hfollows
    · next haccepted =>
      cases hfollows
      exact ⟨request, license, now, before, look, since, hglimpse, hvalidate, hfound, rfl,
        verdict_isValid_iff.2 haccepted.1, rfl⟩
    · cases hfollows

theorem accepted_of_glimpse {k : Nat} {license : License} {now : Instant}
    {before since : List Event} {look : Event} {request : ValidationRequest}
    (hglimpse : Glimpse past k license now before look since)
    (horigin : look.origin = .demand (.validate request))
    (hfound : look.turn = ⟨.store (.findByKey request.key), .ok (some license)⟩)
    (hvalid : (verdict (some license) request now).isValid = true) :
    Accepted past license.id request now := by
  obtain ⟨rfl, hthread, -, read, hmem, hread, hclock⟩ := hglimpse
  exact ⟨license, look, by simp, read, by simp [hmem], hthread.trans hread.symm, horigin, hfound,
    hclock, rfl, hvalid⟩

/-- **Where new metadata come from**, if the operator sends none: from a license that the thread, or
the one that left it behind, has read under the same identifier, perhaps with an acceptance
noted. -/
theorem Sound.metadata_cases (h : c.Sound admits x) (hindexed : x.stores.licenses.Indexed)
    (hsplit : c.events = past ++ e :: future)
    (hspares : ∀ asked, e.origin = .demand asked → asked.SparesMetadata)
    {current after : License} (hchanges : e.Changes current after) :
    after.metadata = current.metadata ∨ ∃ look ∈ past, look.thread = e.source ∧ ∃ license,
      look.before.stores.licenses.byId.get? current.id = some license ∧
      (after.metadata = license.metadata ∨ ∃ request now, Accepted past current.id request now ∧
        after.metadata = some (Metadata.enriched license.metadata now
          (Metadata.Claims.ofJson request.metadata).ipAddress)) := by
  have hlinked := (Linked.append_cons_iff.1 (hsplit ▸ h.linked)).1
  cases hchanges with
  | same => exact .inl rfl
  | status => exact .inl rfl
  | metadata hturn =>
    obtain ⟨request, license, now, before, look, since, hglimpse, hvalidate, hfound, hid, hvalid,
      rfl⟩ := h.glimpse_of_updateMetadata hsplit (congrArg Sigma.fst hturn)
    have haccepted := accepted_of_glimpse hglimpse hvalidate hfound hvalid
    have hstored := hlinked.stored_of_shows hindexed hglimpse.look_mem hglimpse.shows
    rw [← hid]
    exact .inr ⟨look, hglimpse.look_mem, hglimpse.thread, license, hstored,
      .inr ⟨request, now, haccepted, rfl⟩⟩
  | edit hturn hid =>
    obtain ⟨amendment, license, before, look, since, hpast, hlook, hfound, horigin, rfl, -⟩ :=
      h.look_of_update hindexed hsplit (congrArg Sigma.fst hturn)
    have hsame : license.id = current.id := hid
    have hnone : amendment.metadata = none := hspares _ horigin
    have hmetadata : (amendment.apply license).metadata = license.metadata := by
      simp [Amendment.apply, hnone]
    have hmem : look ∈ past := by
      rw [hpast]
      simp
    have hshows : look.turn.Shows license := hfound ▸ .byId
    have hstored := hlinked.stored_of_shows hindexed hmem hshows
    rw [← hsame]
    exact .inr ⟨look, hmem, hlook, license, hstored, .inl hmetadata⟩

/-! ### Without an operator's metadata -/

/-- **The race is confined to the names under which acceptances are noted.** Let anything be
demanded but that an operator writes metadata, and let the tasks run in any order, fail or be lost.
Then a license that was stored at first is stored at every moment, and its metadata are what they
were at first, under every name but two: the time of the last acceptance and its address, and what
is there was there at first, or comes from an acceptance of this license. -/
theorem Reached.noted (hindexed : x.stores.licenses.Indexed)
    (hc : Reached Demand.SparesMetadata x c) {first : License}
    (hfirst : x.stores.licenses.byId.get? id = some first) :
    ∃ current, c.stores.licenses.byId.get? id = some current ∧
      Metadata.Noted (Accepted c.events id) first.metadata current.metadata := by
  have h := hc.sound
  refine (h.linked.invariant (P := fun y ↦ ∃ current,
    y.stores.licenses.byId.get? id = some current ∧
    Metadata.Noted (Accepted c.events id) first.metadata current.metadata)
    ⟨first, hfirst, .refl _⟩ (fun hy hwaits ↦ hwaits.1 ▸ hy) ?_).1
  rintro past e future hsplit hanswered hpast ⟨current, hstored, hnoted⟩
  obtain ⟨hlinked, -, -⟩ := Linked.append_cons_iff.1 (hsplit ▸ h.linked)
  obtain rfl : current.id = id := (hlinked.indexed hindexed).1.id_eq hstored
  obtain ⟨after, hafter, hchanges⟩ := hanswered.changes hstored
  refine ⟨after, hafter, ?_⟩
  have hspares : ∀ asked, e.origin = .demand asked → asked.SparesMetadata := by
    intro asked horigin
    have hinorder := (h.proper hsplit).origin
    rwa [horigin] at hinorder
  rcases h.metadata_cases hindexed hsplit hspares hchanges with
    hsame | ⟨look, hlook, -, license, hlicense, hmetadata⟩
  · rw [hsame]
    exact hnoted
  · -- Whatever was read before was the first license with acceptances noted.
    obtain ⟨seen, hseen, hbase⟩ := hpast look hlook
    obtain rfl : seen = license := Option.some.inj (hseen.symm.trans hlicense)
    rcases hmetadata with heq | ⟨request, now, haccepted, heq⟩
    · rw [heq]
      exact hbase
    · rw [heq]
      exact hbase.enriched (hsplit ▸ haccepted.mono _)

/-- A store with a license that bears no metadata yet. -/
def plainStore : Shared where
  stores := ⟨.single (License.fresh ⟨0⟩ ⟨0⟩ "K" "standard" "app" .active), .empty⟩
  now := ⟨5⟩

/-- The license is validated, and the task that is to note the acceptance is still to run. -/
def plainSeen : Chronicle :=
  (((start { toShared := plainStore } (.demand (.validate ⟨"K", "app", none⟩))).act 0 {}).act 0
    {}).act 0 {}

theorem reached_plainSeen {admits : Demand → Prop} (h : admits (.validate ⟨"K", "app", none⟩)) :
    Reached admits plainStore plainSeen :=
  (((Reached.blank.start h).act 0 {}).act 0 {}).act 0 {}

/-- The acceptance is noted in metadata that were missing at first. -/
theorem Reached.noted_plain : plainStore.stores.licenses.Indexed ∧
    Reached Demand.SparesMetadata plainStore (plainSeen.act 1 {}) ∧
    (plainStore.stores.licenses.byId.get? ⟨0⟩).isSome = true ∧
    ∃ current, (plainSeen.act 1 {}).stores.licenses.byId.get? ⟨0⟩ = some current ∧
      Metadata.Noted (Accepted (plainSeen.act 1 {}).events ⟨0⟩) none current.metadata := by
  have hindexed : plainStore.stores.licenses.Indexed := LicenseStore.indexed_single _
  have hreached : Reached Demand.SparesMetadata plainStore (plainSeen.act 1 {}) :=
    (reached_plainSeen trivial).act 1 {}
  have hfirst : plainStore.stores.licenses.byId.get? ⟨0⟩ =
      some (License.fresh ⟨0⟩ ⟨0⟩ "K" "standard" "app" .active) := rfl
  exact ⟨hindexed, hreached, rfl, Reached.noted hindexed hreached hfirst⟩

/-! ### With an operator's metadata -/

/-- **What a note puts back**, under every other name: the metadata that its validation has looked
up. -/
theorem Sound.agree_of_note (h : c.Sound admits x) (hindexed : x.stores.licenses.Indexed)
    (hsplit : c.events = past ++ e :: future) {metadata : Json}
    (hturn : e.turn = ⟨.store (.updateMetadata id metadata), .ok ()⟩) :
    ∃ request license now before look since,
      Glimpse past e.source license now before look since ∧
      look.origin = .demand (.validate request) ∧
      look.before.stores.licenses.byId.get? id = some license ∧
      ∃ current, e.after.stores.licenses.byId.get? id = some current ∧
        Metadata.Agree license.metadata current.metadata := by
  obtain ⟨hlinked, hanswered, -⟩ := Linked.append_cons_iff.1 (hsplit ▸ h.linked)
  obtain ⟨request, license, now, before, look, since, hglimpse, hvalidate, -, rfl, -, rfl⟩ :=
    h.glimpse_of_updateMetadata hsplit (congrArg Sigma.fst hturn)
  obtain ⟨current, hcurrent, hmetadata⟩ := hanswered.exists_noted hturn
  have hstored := hlinked.stored_of_shows hindexed hglimpse.look_mem hglimpse.shows
  have hagree : Metadata.Agree license.metadata current.metadata := by
    rw [hmetadata]
    exact Metadata.agree_enriched _ _ _
  exact ⟨request, license, now, before, look, since, hglimpse, hvalidate, hstored, current,
    hcurrent, hagree⟩

/-- What metadata agree with they agree with after one more event, if its thread sends none of its
own and has done nothing until they agreed: then all that it has read agrees as well. -/
theorem Sound.agree_step (h : c.Sound admits x) (hindexed : x.stores.licenses.Indexed)
    {since : List Event} (hsplit : c.events = (past ++ since) ++ e :: future)
    {sent : Option Json} {current after : License} (hchanges : e.Changes current after)
    (hwriter : e.SetsMetadata current.id →
      (∀ asked, e.origin = .demand asked → asked.SparesMetadata) ∧
      ∀ earlier ∈ past, earlier.thread ≠ e.source)
    (hread : ∀ look ∈ since, ∃ seen, look.before.stores.licenses.byId.get? current.id = some seen ∧
      Metadata.Agree sent seen.metadata)
    (hagree : Metadata.Agree sent current.metadata) : Metadata.Agree sent after.metadata := by
  by_cases hsets : e.SetsMetadata current.id
  · obtain ⟨hspares, hfresh⟩ := hwriter hsets
    rcases h.metadata_cases hindexed hsplit hspares hchanges with
      hsame | ⟨look, hlook, hthread, license, hlicense, hwritten⟩
    · rw [hsame]
      exact hagree
    · have hsince : look ∈ since :=
        (List.mem_append.1 hlook).resolve_left fun hold ↦ hfresh look hold hthread
      obtain ⟨seen, hseen, hbase⟩ := hread look hsince
      obtain rfl : seen = license := Option.some.inj (hseen.symm.trans hlicense)
      rcases hwritten with heq | ⟨request, now, -, heq⟩
      · rw [heq]
        exact hbase
      · rw [heq]
        exact hbase.trans (Metadata.agree_enriched _ _ _)
  · rw [hchanges.metadata_eq hsets]
    exact hagree

/-- **What an operator has sent stays**, under every other name, as long as whoever has written the
metadata since sent none of their own and has only started since then. -/
theorem Sound.agree_of_amend (h : c.Sound admits x) (hindexed : x.stores.licenses.Indexed)
    (hsplit : c.events = past ++ e :: future) {amendment : Amendment} {object : Json}
    {edit stored : License} (horigin : e.origin = .demand (.amend id amendment))
    (hobject : amendment.metadata = some object)
    (hturn : e.turn = ⟨.store (.update edit), .ok stored⟩)
    (hfresh : ∀ other ∈ future, other.SetsMetadata id →
      (∀ asked, other.origin = .demand asked → asked.SparesMetadata) ∧
      ∀ earlier ∈ past ++ [e], earlier.thread ≠ other.source) :
    ∃ current, c.stores.licenses.byId.get? id = some current ∧
      Metadata.Agree (some object) current.metadata := by
  obtain ⟨-, hanswered, hrest⟩ := Linked.append_cons_iff.1 (hsplit ▸ h.linked)
  obtain ⟨_, license, _, _, _, -, -, -, hamend, rfl, -⟩ :=
    h.look_of_update hindexed hsplit (congrArg Sigma.fst hturn)
  cases horigin.symm.trans hamend
  obtain ⟨current, hcurrent, hmetadata⟩ := hanswered.exists_edited hturn
  have hsent : current.metadata = some object := by
    rw [hmetadata]
    simp [Amendment.apply, hobject]
  refine (hrest.invariant (P := fun y ↦ ∃ current,
    y.stores.licenses.byId.get? license.id = some current ∧
    Metadata.Agree (some object) current.metadata)
    ⟨current, hcurrent, hsent ▸ .refl _⟩ (fun hy hwaits ↦ hwaits.1 ▸ hy) ?_).1
  rintro since other later rfl hother hread ⟨current, hstored, hagree⟩
  have hsplit' : c.events = ((past ++ [e]) ++ since) ++ other :: later := by
    rw [hsplit]
    simp
  have hlinked := (Linked.append_cons_iff.1 (hsplit' ▸ h.linked)).1
  have hid : current.id = license.id := (hlinked.indexed hindexed).1.id_eq hstored
  rw [← hid] at hstored hfresh hread ⊢
  obtain ⟨after, hafter, hchanges⟩ := hother.changes hstored
  exact ⟨after, hafter,
    h.agree_step hindexed hsplit' hchanges (hfresh other (by simp)) hread hagree⟩

/-- **What a note puts back, and what it leaves alone.** A task that notes an acceptance leaves the
license, under every other name, with the metadata that its validation has looked up. After an
operator has written metadata, the license agrees with them under every other name at any moment,
as long as whoever has written its metadata since sent none of their own and has only started since
then. -/
theorem Reached.enriches (hindexed : x.stores.licenses.Indexed) (hc : Reached admits x c)
    (hsplit : c.events = past ++ e :: future) (id : Uuid) :
    (∀ metadata, e.turn = ⟨.store (.updateMetadata id metadata), .ok ()⟩ →
      ∃ request license now before look since,
        Glimpse past e.source license now before look since ∧
        look.origin = .demand (.validate request) ∧
        look.before.stores.licenses.byId.get? id = some license ∧
        ∃ current, e.after.stores.licenses.byId.get? id = some current ∧
          Metadata.Agree license.metadata current.metadata) ∧
    (∀ amendment object edit stored, e.origin = .demand (.amend id amendment) →
      amendment.metadata = some object → e.turn = ⟨.store (.update edit), .ok stored⟩ →
      (∀ other ∈ future, other.SetsMetadata id →
        (∀ asked, other.origin = .demand asked → asked.SparesMetadata) ∧
        ∀ earlier ∈ past ++ [e], earlier.thread ≠ other.source) →
      ∃ current, c.stores.licenses.byId.get? id = some current ∧
        Metadata.Agree (some object) current.metadata) := by
  have h := hc.sound
  constructor
  · intro metadata hturn
    exact h.agree_of_note hindexed hsplit hturn
  · intro amendment object edit stored horigin hobject hturn hfresh
    exact h.agree_of_amend hindexed hsplit horigin hobject hturn hfresh

/-- A binding to a device, as an operator writes it. -/
def deviceBinding : Json := .object [(Metadata.deviceId, .string "device")]

/-- The demand that writes it. -/
def bindDevice : Demand := .amend ⟨0⟩ { metadata := some deviceBinding }

/-- The license is bound to a device, then validated, and the acceptance is noted. -/
def boundFirst : Chronicle :=
  ((((((((start { toShared := plainStore } (.demand bindDevice)).act 0 {}).act 0 {}).start
    (.demand (.validate ⟨"K", "app", some deviceBinding⟩))).act 1 {}).act 1 {}).act 1 {}).act 2 {})

/-- The license is bound to a device after it was validated, and the acceptance is noted last. -/
def boundMeanwhile : Chronicle :=
  (((plainSeen.start (.demand bindDevice)).act 2 {}).act 2 {}).act 1 {}

/-- A note by a validation that has started since leaves the binding alone. -/
theorem Reached.enriches_bound : plainStore.stores.licenses.Indexed ∧
    Reached (fun _ ↦ True) plainStore boundFirst ∧
    ∃ current, boundFirst.stores.licenses.byId.get? ⟨0⟩ = some current ∧
      Metadata.Agree (some deviceBinding) current.metadata := by
  have hindexed : plainStore.stores.licenses.Indexed := LicenseStore.indexed_single _
  have hreached : Reached (fun _ ↦ True) plainStore boundFirst :=
    ((((((((Reached.blank.start trivial).act 0 {}).act 0 {}).start trivial).act 1 {}).act 1 {}).act
      1 {}).act 2 {})
  obtain ⟨first, e, future, hsplit, hfirst, hfuture, horigin, edit, stored, hturn⟩ :
      ∃ first e future, boundFirst.events = [first] ++ e :: future ∧
        (first.thread = 0 ∧ e.thread = 0) ∧
        (∀ other ∈ future, other.source = 1 ∧
          ∀ asked, other.origin = .demand asked → asked.SparesMetadata) ∧
        e.origin = .demand bindDevice ∧
        ∃ edit stored, e.turn = ⟨.store (.update edit), .ok stored⟩ := by
    refine ⟨_, _, [_, _, _, _], rfl, ⟨rfl, rfl⟩, ?_, rfl, _, _, rfl⟩
    intro other hother
    simp only [List.mem_cons, List.not_mem_nil, or_false] at hother
    rcases hother with rfl | rfl | rfl | rfl
    · exact ⟨rfl, by rintro _ ⟨⟩; trivial⟩
    · exact ⟨rfl, by rintro _ ⟨⟩; trivial⟩
    · exact ⟨rfl, by rintro _ ⟨⟩; trivial⟩
    · exact ⟨rfl, by rintro _ ⟨⟩⟩
  refine ⟨hindexed, hreached, (Reached.enriches hindexed hreached hsplit ⟨0⟩).2 _ deviceBinding edit
    stored horigin rfl hturn fun other hother _ ↦ ⟨(hfuture other hother).2, ?_⟩⟩
  simp [hfirst, (hfuture other hother).1]

/-- Notes leave alone what an operator has written to the metadata between the lookup of a
validation and its note, as long as nobody else has written to them since. -/
def SparesAmendments (c : Chronicle) : Prop :=
  ∀ before look between edit since run after,
    c.events = before ++ look :: (between ++ edit :: (since ++ run :: after)) →
    ∀ id key license amendment object sent stored metadata,
      look.turn = ⟨.store (.findByKey key), .ok (some license)⟩ → license.id = id →
      edit.origin = .demand (.amend id amendment) → amendment.metadata = some object →
      edit.turn = ⟨.store (.update sent), .ok stored⟩ →
      (∀ other ∈ since, ¬ other.SetsMetadata id) →
      run.origin = .task (.enrich id metadata) look.thread →
      run.turn = ⟨.store (.updateMetadata id metadata), .ok ()⟩ →
      ∃ current, run.after.stores.licenses.byId.get? id = some current ∧
        Metadata.Agree (some object) current.metadata

/-- **Not every note leaves an amendment alone**: a license is bound to a device after a validation
has looked it up, and the note of the acceptance takes the binding away. -/
theorem not_forall_sparesAmendments : ¬ ∀ (x : Shared) (c : Chronicle),
    x.stores.licenses.Indexed → Reached (fun _ ↦ True) x c → c.SparesAmendments := by
  intro hall
  have hreached : Reached (fun _ ↦ True) plainStore boundMeanwhile :=
    ((((reached_plainSeen trivial).start trivial).act 2 {}).act 2 {}).act 1 {}
  obtain ⟨current, hcurrent, hagree⟩ := hall plainStore boundMeanwhile
    (LicenseStore.indexed_single _) hreached [] _ [_, _, _] _ [] _ [] rfl ⟨0⟩ "K" _ _ deviceBinding
    _ _ _ rfl rfl rfl rfl rfl (fun _ h ↦ absurd h List.not_mem_nil) rfl rfl
  have hmetadata : current.metadata = some (Metadata.enriched none ⟨5⟩ none) := by
    cases hcurrent
    rfl
  have hdevice := hagree Metadata.deviceId (by decide) (by decide)
  rw [hmetadata, Metadata.field?_enriched] at hdevice
  cases hdevice

end Chronicle

end Licensing
