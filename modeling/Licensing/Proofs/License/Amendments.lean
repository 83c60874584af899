import Licensing.Proofs.License.Snapshots

/-!
# Amendments among other writes

An amendment is applied to a copy of the license as it was looked up, and all fields that an
amendment could name are written back from that copy (`EditableField`). So the write gives the
license what the amendment names and, in every other such field, what the lookup has shown
(`Chronicle.Reached.amends`): a field that is not named stays as it is exactly if it still has, or
has again, the value that was looked up. It does if nobody has written to it in between
(`Event.Puts`). Status, key, and times of creation and issue are not written at all.

The condition is needed. Of two amendments of different fields that both look the license up before
either is written, the second write takes the first back (`Chronicle.not_forall_sparesUnnamed`).

`Reached.amends` rests on an amendment going back to a lookup of its own
(`Sound.look_of_update`) and on what was looked up having been stored at that moment
(`Linked.stored_of_shows`). That a field nobody has written to is still what it was is an induction
on the events in between (`Linked.same_of_quiet`).
-/

namespace Licensing

/-- The fields that an amendment can name. -/
inductive EditableField
  | kind
  | product
  | customerName
  | customerEmail
  | expiresAt
  | metadata

namespace EditableField

variable {field : EditableField} {amendment : Amendment}

/-- The field has the same value in both licenses. -/
def Same (a b : License) : EditableField → Prop
  | kind => a.kind = b.kind
  | product => a.product = b.product
  | customerName => a.customerName = b.customerName
  | customerEmail => a.customerEmail = b.customerEmail
  | expiresAt => a.expiresAt = b.expiresAt
  | metadata => a.metadata = b.metadata

/-- The amendment names the field. -/
def Named (amendment : Amendment) : EditableField → Prop
  | kind => amendment.kind ≠ none
  | product => amendment.product ≠ none
  | customerName => amendment.customerName ≠ none
  | customerEmail => amendment.customerEmail ≠ none
  | expiresAt => amendment.expiresAt ≠ none
  | metadata => amendment.metadata ≠ none

protected theorem Same.refl (a : License) (field : EditableField) : field.Same a a := by
  cases field <;> rfl

theorem Same.symm {a b : License} (h : field.Same a b) : field.Same b a := by
  cases field <;> exact Eq.symm h

theorem Same.trans {a b c : License} (hab : field.Same a b) (hbc : field.Same b c) :
    field.Same a c := by
  cases field <;> exact Eq.trans hab hbc

/-- What is not named is left as it is in the copy. -/
theorem same_apply_of_not_named (h : ¬ field.Named amendment) (license : License) :
    field.Same (amendment.apply license) license := by
  cases field <;> simp_all [Same, Named, Amendment.apply]

/-- What is named does not depend on the copy. -/
theorem same_apply_of_named (h : field.Named amendment) (a b : License) :
    field.Same (amendment.apply a) (amendment.apply b) := by
  cases field <;> obtain ⟨value, hvalue⟩ := Option.ne_none_iff_exists'.1 h <;>
    simp [Same, Amendment.apply, hvalue]

/-- All of these fields are written. -/
theorem same_edited (edit license : License) (now : Instant) (field : EditableField) :
    field.Same (LicenseStore.edited edit now license) edit := by
  cases field <;> rfl

end EditableField

/-- What an amendment makes of a license when it is written: `read` is the license as it was looked
up, `current` as it is just before the write, and `stored` as it is just after. -/
structure Amendment.Makes (amendment : Amendment) (read current stored : License) : Prop where
  named : ∀ field : EditableField, field.Named amendment →
    field.Same stored (amendment.apply current)
  unnamed : ∀ field : EditableField, ¬ field.Named amendment → field.Same stored read
  id_eq : stored.id = current.id
  key_eq : stored.key = current.key
  status_eq : stored.status = current.status
  issuedAt_eq : stored.issuedAt = current.issuedAt
  createdAt_eq : stored.createdAt = current.createdAt

theorem Amendment.makes_edited (amendment : Amendment) (read current : License) (now : Instant) :
    amendment.Makes read current (LicenseStore.edited (amendment.apply read) now current) where
  named field h := (field.same_edited _ _ _).trans (field.same_apply_of_named h _ _)
  unnamed field h := (field.same_edited _ _ _).trans (field.same_apply_of_not_named h _)
  id_eq := rfl
  key_eq := rfl
  status_eq := rfl
  issuedAt_eq := rfl
  createdAt_eq := rfl

/-- **A field that is not named stays exactly if what was looked up is still there.** -/
theorem Amendment.Makes.same_current_iff {amendment : Amendment} {read current stored : License}
    (h : amendment.Makes read current stored) {field : EditableField}
    (hfield : ¬ field.Named amendment) : field.Same stored current ↔ field.Same read current :=
  ⟨(h.unnamed field hfield).symm.trans, (h.unnamed field hfield).trans⟩

namespace Event

variable {e : Event} {license after : License}

/-- An event writes to a field of a license: a note of an acceptance to the metadata, an amendment
to every field. -/
inductive Puts (e : Event) (id : Uuid) : EditableField → Prop
  | note {metadata : Json} (hturn : e.turn = ⟨.store (.updateMetadata id metadata), .ok ()⟩) :
      Puts e id .metadata
  | edit {edit stored : License} {field : EditableField}
      (hturn : e.turn = ⟨.store (.update edit), .ok stored⟩) (hid : edit.id = id) : Puts e id field

/-- Where no event writes to a field, it stays. -/
theorem Changes.same_of_not_puts (h : e.Changes license after) {field : EditableField}
    (hkeeps : ¬ e.Puts license.id field) : field.Same after license := by
  cases h with
  | same => exact .refl _ _
  | status => cases field <;> rfl
  | metadata hturn =>
    cases field with
    | metadata => exact absurd (.note hturn) hkeeps
    | _ => rfl
  | edit hturn hid => exact absurd (.edit hturn hid) hkeeps

end Event

/-- **What was looked up is still there** in a field that nobody has written to since. -/
theorem Linked.same_of_quiet {x y : Shared} {past since : List Event} {look : Event}
    (h : Linked x (past ++ look :: since) y) (hindexed : x.stores.licenses.Indexed)
    {read current : License} (hshows : look.turn.Shows read)
    (hcurrent : y.stores.licenses.byId.get? read.id = some current) {field : EditableField}
    (hquiet : ∀ other ∈ since, ¬ other.Puts read.id field) : field.Same read current := by
  obtain ⟨hpast, hlook, hsince⟩ := Linked.append_cons_iff.1 h
  have hfirst := hlook.stored_after_shows (hpast.indexed hindexed).1 hshows
  obtain ⟨later, hlater, hsame⟩ := (hsince.invariant (P := fun z ↦ ∃ later,
    z.stores.licenses.byId.get? read.id = some later ∧ field.Same read later)
    ⟨read, hfirst, .refl _ _⟩ (fun hz hwaits ↦ hwaits.1 ▸ hz) (by
      rintro earlier other rest rfl hother - ⟨seen, hseen, hsame⟩
      have hid : seen.id = read.id := ((h.indexed hindexed).2 other (by simp)).id_eq hseen
      rw [← hid] at hseen hquiet ⊢
      obtain ⟨after, hafter, hchanges⟩ := hother.changes hseen
      have hkept := hchanges.same_of_not_puts (hquiet other (by simp))
      exact ⟨after, hafter, hsame.trans hkept.symm⟩)).1
  rw [hcurrent] at hlater
  exact Option.some.inj hlater ▸ hsame

namespace Chronicle

variable {admits : Demand → Prop} {x : Shared} {c : Chronicle} {past future : List Event}
  {e : Event} {id : Uuid} {amendment : Amendment}

/-- **An amendment in any run.** Whatever else is demanded in the meantime, and whatever fails or is
lost: an amendment that is written goes back to a lookup of its own, and makes of the license what
`Amendment.Makes` says of that. So a field that it does not name has after the write the value from
just before exactly if what was looked up is still there, and that is so where no other write to the
field falls between the two. -/
theorem Reached.amends (hindexed : x.stores.licenses.Indexed) (hc : Reached admits x c)
    (hsplit : c.events = past ++ e :: future) (horigin : e.origin = .demand (.amend id amendment))
    {edit stored : License} (hturn : e.turn = ⟨.store (.update edit), .ok stored⟩) :
    ∃ read current before look since,
      past = before ++ look :: since ∧ look.thread = e.thread ∧
      look.turn = ⟨.store (.findById id), .ok (some read)⟩ ∧
      look.before.stores.licenses.byId.get? id = some read ∧
      e.before.stores.licenses.byId.get? id = some current ∧
      e.after.stores.licenses.byId.get? id = some stored ∧
      amendment.Makes read current stored ∧
      ∀ field : EditableField, ¬ field.Named amendment →
        (field.Same stored current ↔ field.Same read current) ∧
        ((∀ other ∈ since, ¬ other.Puts id field) → field.Same stored current) := by
  have h := hc.sound
  obtain ⟨hlinked, hanswered, -⟩ := Linked.append_cons_iff.1 (hsplit ▸ h.linked)
  obtain ⟨named, read, before, look, since, rfl, hlook, hfound, hamend, rfl, -⟩ :=
    h.look_of_update hindexed hsplit (congrArg Sigma.fst hturn)
  cases horigin.symm.trans hamend
  obtain ⟨current, hcurrent, rfl, hstored⟩ := hanswered.edited hturn
  have hshows : look.turn.Shows read := hfound ▸ .byId
  have hread := hlinked.stored_of_shows hindexed (by simp) hshows
  have hmakes := amendment.makes_edited read current e.before.now
  have hsource : e.source = e.thread := by rw [Event.source, horigin]
  refine ⟨read, current, before, look, since, rfl, hlook.trans hsource, hfound, hread, hcurrent,
    hstored, hmakes, fun field hfield ↦ ⟨hmakes.same_current_iff hfield, fun hquiet ↦ ?_⟩⟩
  exact (hmakes.same_current_iff hfield).2 (hlinked.same_of_quiet hindexed hshows hcurrent hquiet)

/-! ### Two amendments at once -/

/-- A store with a license of a product, for nobody in particular. -/
def namelessStore : Shared where
  stores := ⟨.single (License.fresh ⟨0⟩ ⟨0⟩ "K" "standard" "app" .active), .empty⟩
  now := ⟨5⟩

/-- An amendment of the product. -/
def renameProduct : Amendment := { product := some "suite" }

/-- An amendment of the customer's name. -/
def nameCustomer : Amendment := { customerName := some "Acme" }

/-- The product is amended, and then the customer's name. -/
def amendedInTurn : Chronicle :=
  (((((start { toShared := namelessStore } (.demand (.amend ⟨0⟩ renameProduct))).act 0 {}).act 0
    {}).start (.demand (.amend ⟨0⟩ nameCustomer))).act 1 {}).act 1 {}

/-- The license is looked up for both amendments before either is written. -/
def amendedAtOnce : Chronicle :=
  (((((start { toShared := namelessStore } (.demand (.amend ⟨0⟩ renameProduct))).start
    (.demand (.amend ⟨0⟩ nameCustomer))).act 0 {}).act 1 {}).act 1 {}).act 0 {}

/-- Made one after the other, both amendments take effect. -/
theorem Reached.amends_in_turn : namelessStore.stores.licenses.Indexed ∧
    Reached (fun _ ↦ True) namelessStore amendedInTurn ∧
    ∃ past e, amendedInTurn.events = past ++ e :: [] ∧
      e.origin = .demand (.amend ⟨0⟩ nameCustomer) ∧
      ∃ edit stored, e.turn = ⟨.store (.update edit), .ok stored⟩ ∧
        stored.customerName = some "Acme" ∧
        ∃ current, e.before.stores.licenses.byId.get? ⟨0⟩ = some current ∧
          current.product = "suite" ∧ EditableField.product.Same stored current := by
  have hindexed : namelessStore.stores.licenses.Indexed := LicenseStore.indexed_single _
  have hreached : Reached (fun _ ↦ True) namelessStore amendedInTurn :=
    ((((Reached.blank.start trivial).act 0 {}).act 0 {}).start trivial |>.act 1 {}).act 1 {}
  obtain ⟨first, second, third, e, hsplit, hothers, hthread, horigin, edit, stored, hturn, hname,
      hproduct⟩ :
      ∃ first second third e, amendedInTurn.events = [first, second, third] ++ e :: [] ∧
        (first.thread = 0 ∧ second.thread = 0) ∧ e.thread = 1 ∧
        e.origin = .demand (.amend ⟨0⟩ nameCustomer) ∧
        ∃ edit stored, e.turn = ⟨.store (.update edit), .ok stored⟩ ∧
          stored.customerName = some "Acme" ∧
          (e.before.stores.licenses.byId.get? ⟨0⟩).map (·.product) = some "suite" :=
    ⟨_, _, _, _, rfl, ⟨rfl, rfl⟩, rfl, rfl, _, _, rfl, rfl, rfl⟩
  obtain ⟨read, current, before, look, since, hpast, hlook, -, -, hcurrent, -, -, hfields⟩ :=
    Reached.amends hindexed hreached hsplit horigin hturn
  -- The lookup is the last event before the write.
  have hsince : since = [] := by
    rcases before with - | ⟨_, - | ⟨_, - | ⟨_, before⟩⟩⟩
    · cases hpast
      cases (hothers.1.symm.trans hlook).trans hthread
    · cases hpast
      cases (hothers.2.symm.trans hlook).trans hthread
    · cases hpast
      rfl
    · simp at hpast
  subst hsince
  rw [hcurrent] at hproduct
  exact ⟨hindexed, hreached, _, e, hsplit, horigin, edit, stored, hturn, hname, current, hcurrent,
    Option.some.inj hproduct, (hfields .product (fun h ↦ h rfl)).2 (by simp)⟩

/-- An amendment that is written leaves each field that it does not name as it is. -/
def SparesUnnamed (c : Chronicle) : Prop :=
  ∀ e ∈ c.events, ∀ id amendment edit stored,
    e.origin = .demand (.amend id amendment) → e.turn = ⟨.store (.update edit), .ok stored⟩ →
    ∀ current, e.before.stores.licenses.byId.get? id = some current →
      ∀ field : EditableField, ¬ field.Named amendment → field.Same stored current

/-- **Not every amendment leaves alone what it does not name**: the customer gets a name after the
license was looked up for an amendment of the product, and its write takes the name away. -/
theorem not_forall_sparesUnnamed : ¬ ∀ (x : Shared) (c : Chronicle),
    x.stores.licenses.Indexed → Reached (fun _ ↦ True) x c → c.SparesUnnamed := by
  intro hall
  have hreached : Reached (fun _ ↦ True) namelessStore amendedAtOnce :=
    ((((Reached.blank.start trivial).start trivial).act 0 {}).act 1 {} |>.act 1 {}).act 0 {}
  obtain ⟨e, hmem, horigin, edit, stored, hturn, current, hcurrent, hname, hlost⟩ :
      ∃ e ∈ amendedAtOnce.events, e.origin = .demand (.amend ⟨0⟩ renameProduct) ∧
        ∃ edit stored, e.turn = ⟨.store (.update edit), .ok stored⟩ ∧
        ∃ current, e.before.stores.licenses.byId.get? ⟨0⟩ = some current ∧
          current.customerName = some "Acme" ∧ stored.customerName = none :=
    ⟨_, List.mem_of_getElem? (i := 3) rfl, rfl, _, _, rfl, _, rfl, rfl, rfl⟩
  have hsame : stored.customerName = current.customerName :=
    hall namelessStore amendedAtOnce (LicenseStore.indexed_single _) hreached e hmem ⟨0⟩ _ edit
      stored horigin hturn current hcurrent .customerName (fun h ↦ h rfl)
  rw [hname, hlost] at hsame
  cases hsame

end Chronicle

end Licensing
