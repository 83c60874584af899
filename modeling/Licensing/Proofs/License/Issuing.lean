import Licensing.License.Issuing
import Licensing.Proofs.License.Roll
import Licensing.Proofs.License.Validation
import Licensing.Proofs.System.Course

/-!
# What comes of a request for a license

A request has four rules to keep (`IssueRequest.Rule`), stated here without the computation that
checks them. `License.issue_eq` lists the effects of issuing one by one, so what comes of a request
can be read off once it is known what is drawn (`Course.drawing`).

The main result is `License.issue_delivers`. A request that breaks a rule is refused for the first
one that it breaks, with nothing drawn and nothing stored. One that breaks none adds the license
that it asks for, and if it starts out active, it is good at once for whoever asks for its product
with its device and its user. The clock does not stand in the way: an expiry has to be later than
now to be stored, and only one that is earlier than now is past.

It rests on the rules being checked in their order (`Rule.fault?_eq`), on a creation succeeding
exactly if neither the key nor the identifier is taken (`issue_of_new`, `issue_of_taken`), and on
what a license that was asked for is good for (`IssueRequest.AsksFor.goodFor_iff`).
-/

namespace Licensing

theorem Json.isObject_eq_false_iff {value : Json} :
    value.isObject = false ↔ ∀ fields, value ≠ .object fields := by
  cases value <;> simp [isObject, fields?]

/-! ### The rules for a request -/

namespace IssueRequest

/-- The rules for a request. -/
inductive Rule
  | kind
  | product
  | metadata
  | expiry
  deriving DecidableEq

namespace Rule

/-- The order in which the rules are checked. -/
def inOrder : List Rule := [kind, product, metadata, expiry]

theorem mem_inOrder (rule : Rule) : rule ∈ inOrder := by cases rule <;> decide

/-- What is said of a request that breaks the rule. -/
def failure : Rule → Failure
  | kind => .blankField "type"
  | product => .blankField "product_name"
  | metadata => .metadataNotObject
  | expiry => .expiryNotInFuture

theorem kind_failure (rule : Rule) : rule.failure.kind = .validation := by cases rule <;> rfl

/-- What it takes to break a rule: type or product is nothing but blanks, metadata are given and
are no object, an expiry is given and is not later than now. -/
inductive Broken (request : IssueRequest) (now : Instant) : Rule → Prop
  | kind (h : ∀ c ∈ request.kind.toList, Text.isBlank c = true) : Broken request now kind
  | product (h : ∀ c ∈ request.product.toList, Text.isBlank c = true) : Broken request now product
  | metadata {value : Json} (h : request.metadata = some value)
      (hother : ∀ fields, value ≠ .object fields) : Broken request now metadata
  | expiry {limit : Instant} (h : request.expiresAt = some limit) (hpast : limit ≤ now) :
      Broken request now expiry

/-- The rule is the first that the request breaks, all before it being kept. -/
def FirstBroken (request : IssueRequest) (now : Instant) (rule : Rule) : Prop :=
  ∃ before after, inOrder = before ++ rule :: after ∧
    (∀ earlier ∈ before, ¬ Broken request now earlier) ∧ Broken request now rule

/-- Whether the request breaks the rule. -/
def isBroken (request : IssueRequest) (now : Instant) : Rule → Bool
  | kind => Text.allBlank request.kind.toList
  | product => Text.allBlank request.product.toList
  | metadata => request.metadata.any (!·.isObject)
  | expiry => request.expiresAt.any (· ≤ now)

variable {request : IssueRequest} {now : Instant} {rule : Rule}

theorem isBroken_iff : rule.isBroken request now = true ↔ rule.Broken request now := by
  constructor
  · intro h
    cases rule with
    | kind => exact .kind (List.all_eq_true.1 h)
    | product => exact .product (List.all_eq_true.1 h)
    | metadata =>
      obtain ⟨value, hvalue, hother⟩ := (Option.any_eq_true _ _).1 h
      exact .metadata hvalue (Json.isObject_eq_false_iff.1 (by simpa using hother))
    | expiry =>
      obtain ⟨limit, hlimit, hpast⟩ := (Option.any_eq_true _ _).1 h
      exact .expiry hlimit (of_decide_eq_true hpast)
  · rintro (h | h | @⟨value, h, hother⟩ | ⟨h, hpast⟩)
    · exact List.all_eq_true.2 h
    · exact List.all_eq_true.2 h
    · exact (Option.any_eq_true _ _).2 ⟨value, h, by simp [Json.isObject_eq_false_iff.2 hother]⟩
    · exact (Option.any_eq_true _ _).2 ⟨_, h, decide_eq_true hpast⟩

/-- The first broken rule is found by checking the rules in their order. -/
theorem fault?_eq (request : IssueRequest) (now : Instant) :
    request.fault? now = (inOrder.find? (isBroken request now)).map failure := by
  unfold fault?
  split_ifs with hkind hproduct hmetadata hexpiry <;>
    simp_all [inOrder, isBroken, failure]

/-- What is found by a check is the first rule, in their order, of which it is true what is
checked. -/
theorem find?_eq_some_iff_first {check : Rule → Bool} {P : Rule → Prop}
    (h : ∀ rule, check rule = true ↔ P rule) :
    inOrder.find? check = some rule ↔ ∃ before after, inOrder = before ++ rule :: after ∧
      (∀ earlier ∈ before, ¬ P earlier) ∧ P rule := by
  simp only [List.find?_eq_some_iff_append, ← h, Bool.not_eq_eq_eq_not, Bool.not_true,
    ← Bool.not_eq_true]
  grind

theorem find?_isBroken_eq_some_iff :
    inOrder.find? (isBroken request now) = some rule ↔ FirstBroken request now rule :=
  find?_eq_some_iff_first fun _ ↦ isBroken_iff

/-- A request that breaks a rule breaks one of them first. -/
theorem Broken.exists_first (h : rule.Broken request now) :
    ∃ first, FirstBroken request now first := by
  rcases hfind : inOrder.find? (isBroken request now) with - | first
  · exact absurd (isBroken_iff.2 h) (List.find?_eq_none.1 hfind rule rule.mem_inOrder)
  · exact ⟨first, find?_isBroken_eq_some_iff.1 hfind⟩

/-- **The first broken rule is what a request is refused for.** -/
theorem FirstBroken.fault?_eq (h : FirstBroken request now rule) :
    request.fault? now = some rule.failure := by
  rw [Rule.fault?_eq, find?_isBroken_eq_some_iff.2 h]
  rfl

/-- A request that keeps the rules is not refused. -/
theorem fault?_eq_none (h : ∀ rule : Rule, ¬ rule.Broken request now) :
    request.fault? now = none := by
  rw [Rule.fault?_eq, List.find?_eq_none.2 fun rule _ ↦ mt isBroken_iff.1 (h rule)]
  rfl

end Rule

/-! ### The license that is asked for -/

/-- The license is the one that is asked for at a time, under a key and an identifier. It is active
unless another status is asked for, and it counts as issued at once if it is active. -/
structure AsksFor (request : IssueRequest) (now : Instant) (key id : Uuid) (license : License) :
    Prop where
  id : license.id = id
  key : license.key = key.toText
  kind : license.kind = request.kind
  product : license.product = request.product
  customerName : license.customerName = request.customerName
  customerEmail : license.customerEmail = request.customerEmail
  metadata : license.metadata = request.metadata
  expiresAt : license.expiresAt = request.expiresAt
  status : ∀ status, license.status = status ↔
    request.status = some status ∨ request.status = none ∧ status = .active
  issuedAt : ∀ issued, license.issuedAt = some issued ↔ license.status = .active ∧ issued = now
  createdAt : license.createdAt = now
  updatedAt : license.updatedAt = now

theorem asksFor_toLicense (request : IssueRequest) (now : Instant) (key id : Uuid) :
    request.AsksFor now key id (request.toLicense now key.toText id) := by
  refine ⟨rfl, rfl, rfl, rfl, rfl, rfl, rfl, rfl, fun status ↦ ?_, fun issued ↦ ?_, rfl, rfl⟩
  · show request.status.getD .active = status ↔ _
    cases request.status <;> simp [eq_comm]
  · show (if (request.toLicense now key.toText id).status = .active then some now else none) =
      some issued ↔ _
    rw [Option.ite_none_right_eq_some, Option.some.injEq, eq_comm (a := now)]

end IssueRequest

/-- **A license that was asked for is good at once, exactly if it is active.** -/
theorem IssueRequest.AsksFor.goodFor_iff {request : IssueRequest} {now : Instant} {key id : Uuid}
    {license : License} {question : ValidationRequest} (h : request.AsksFor now key id license)
    (hfuture : ¬ Rule.Broken request now .expiry) (hkey : question.key = license.key)
    (hproduct : question.product = license.product)
    (hdevice : license.Fits question Metadata.deviceId)
    (huser : license.Fits question Metadata.userId) :
    license.GoodFor question now ↔ license.status = .active := by
  refine ⟨fun hgood ↦ hgood.status, fun hactive ↦
    ⟨hkey.symm, hproduct.symm, hactive, fun limit hlimit ↦ ?_, hdevice, huser⟩⟩
  -- What is not later than now was refused, so no expiry that was stored is past.
  refine Instant.not_lt.1 fun hpast ↦ hfuture (.expiry (h.expiresAt ▸ hlimit) ?_)
  exact Int.le_of_lt hpast

/-! ### The store with one more license -/

section Store

variable (store : LicenseStore) (license : License)

/-- The license that was added last is found by its key, whatever the index said before. -/
theorem LicenseStore.findByKey_added :
    (store.added license).findByKey license.key = some license := by
  simp [findByKey, added, Table.get?_insert]

theorem LicenseStore.findById_added_of_ne {id : Uuid} (h : id ≠ license.id) :
    (store.added license).findById id = store.findById id := by
  simp [findById, added, Table.get?_insert, h]

/-- A license whose key or identifier is taken is not added. -/
theorem Stores.answer_create_of_taken (stores : Stores) (now : Instant)
    (h : stores.licenses.byKey.contains license.key = true ∨
      stores.licenses.byId.contains license.id = true) :
    ∃ failure, failure.kind = .conflict ∧
      stores.answer now (.create license) = (.error failure, stores) := by
  simp only [answer, LicenseStore.create]
  split_ifs with hkey hid
  · exact ⟨_, rfl, rfl⟩
  · exact ⟨_, rfl, rfl⟩
  · exact absurd h (not_or.2 ⟨hkey, hid⟩)

end Store

/-! ### A service on its own -/

/-- The course of a service on its own in which no call fails: what the `k`th effect draws, if it
draws an identifier, is `ids k`. -/
def Course.drawing (ids : Nat → Uuid) : Course (.alone fun _ _ ↦ True) :=
  .undisturbed (fun k _ ↦ { id := ids k }) fun _ _ _ ↦ trivial

/-- What submits no task is performed by what is shared alone, and the course goes on. -/
theorem Course.watchFrom_drawing {α : Type} {ids : Nat → Uuid} {k : Nat} {s : System}
    {effect : Effect} {answer : effect.Answer} {after : Shared} (hnone : effect.tasks = [])
    (h : s.toShared.perform { id := ids k } effect = (answer, after))
    (next : effect.Answer → Program α) :
    (drawing ids).watchFrom k (.act effect next) s =
      { (drawing ids).watchFrom (k + 1) (next answer) ⟨after, s.jobs⟩ with
        turns := ⟨effect, answer⟩ ::
          ((drawing ids).watchFrom (k + 1) (next answer) ⟨after, s.jobs⟩).turns } := by
  simp only [watchFrom, drawing, undisturbed, System.perform_of_no_tasks hnone, h]

namespace License

/-- **Issuing effect by effect.** -/
theorem issue_eq (request : IssueRequest) :
    issue request = .act .clock fun now ↦
      match request.fault? now with
      | some fault => .done (.error fault)
      | none => .act .freshId fun key ↦ .act .freshId fun id ↦
        .act (.store (.create (request.toLicense now key.toText id))) .done := by
  refine congrArg (Program.act _) (funext fun now ↦ ?_)
  simp only [Program.bind, Function.comp, ExceptT.bindCont]
  cases request.fault? now <;> rfl

variable {request : IssueRequest} {s : System}

/-- A request that is refused comes to no more than a look at the clock. -/
theorem watch_issue_of_fault {failure : Failure} (h : request.fault? s.now = some failure)
    (ids : Nat → Uuid) : (Course.drawing ids).watch (issue request) s =
      ⟨[⟨.clock, s.now⟩], .error failure, s⟩ := by
  rw [issue_eq, Course.watch, Course.watchFrom_drawing rfl rfl, h]
  rfl

/-- A request that is not refused comes to a call to the store. -/
theorem watch_issue_of_fault?_eq_none (h : request.fault? s.now = none) (ids : Nat → Uuid) :
    let license := request.toLicense s.now (ids 1).toText (ids 2)
    let done := s.stores.answer s.now (.create license)
    (Course.drawing ids).watch (issue request) s =
      ⟨[⟨.clock, s.now⟩, ⟨.freshId, ids 1⟩, ⟨.freshId, ids 2⟩, ⟨.store (.create license), done.1⟩],
        done.1, { s with stores := done.2 }⟩ := by
  rw [issue_eq, Course.watch, Course.watchFrom_drawing rfl rfl, h]
  rw [Course.watchFrom_drawing rfl rfl, Course.watchFrom_drawing rfl rfl,
    Course.watchFrom_drawing rfl rfl]
  rfl

/-- A validation is answered by what is stored and by the clock. -/
theorem value_watch_validate (question : ValidationRequest) (s : System) (ids : Nat → Uuid) :
    ((Course.drawing ids).watch (validate question) s).value =
      .ok (verdict (s.stores.licenses.findByKey question.key) question s.now) := by
  rw [validate_eq]
  show ((Course.drawing ids).watchFrom 2 (judge (s.stores.licenses.findByKey question.key) question
    s.now) _).value = _
  unfold judge
  cases followUp? (s.stores.licenses.findByKey question.key) question s.now <;> rfl

end License

/-! ### The main result -/

/-- The request was granted: the license asked for is stored besides what was there, everything else
is as it was, and whoever presents its key for its product, on its device and for its user, is told
at once that it is valid, exactly if it is active. -/
structure IssueRequest.Granted (request : IssueRequest) (ids : Nat → Uuid) (s : System)
    (account : Account (Except Failure License)) (license : License) : Prop where
  value : account.value = .ok license
  asked : request.AsksFor s.now (ids 1) (ids 2) license
  licenses : account.system.stores.licenses.licenses = s.stores.licenses.licenses ++ [license]
  others : ∀ id, id ≠ license.id →
    account.system.stores.licenses.findById id = s.stores.licenses.findById id
  rest : account.system =
    { s with stores := { s.stores with licenses := account.system.stores.licenses } }
  good : ∀ question : ValidationRequest, question.key = license.key →
    question.product = license.product → license.Fits question Metadata.deviceId →
    license.Fits question Metadata.userId → ∃ answer,
      ((Course.drawing ids).watch (License.validate question) account.system).value = .ok answer ∧
      (answer.isValid = true ↔ license.status = .active)

namespace License

variable {request : IssueRequest} {s : System} (ids : Nat → Uuid)

/-- A request that keeps the rules is granted where what is drawn is new. -/
theorem issue_of_new (h : ∀ rule, ¬ IssueRequest.Rule.Broken request s.now rule)
    (hkey : s.stores.licenses.byKey.get? (ids 1).toText = none)
    (hid : s.stores.licenses.byId.get? (ids 2) = none) :
    ∃ license, request.Granted ids s ((Course.drawing ids).watch (issue request) s) license := by
  have hasked := request.asksFor_toLicense s.now (ids 1) (ids 2)
  rw [watch_issue_of_fault?_eq_none (IssueRequest.Rule.fault?_eq_none h)]
  generalize request.toLicense s.now (ids 1).toText (ids 2) = license at hasked ⊢
  rw [← hasked.key] at hkey
  rw [← hasked.id] at hid
  rw [s.stores.answer_create_of_new s.now hid hkey]
  refine ⟨license, rfl, hasked, LicenseStore.licenses_added hid,
    fun id hne ↦ LicenseStore.findById_added_of_ne _ license hne, rfl, ?_⟩
  intro question hquestion hproduct hdevice huser
  refine ⟨_, value_watch_validate question _ ids, ?_⟩
  show (verdict ((s.stores.licenses.added license).findByKey question.key) question s.now).isValid =
    true ↔ _
  rw [hquestion, LicenseStore.findByKey_added, verdict_isValid_iff,
    ← hasked.goodFor_iff (h .expiry) hquestion hproduct hdevice huser, goodFor_iff]
  exact (and_iff_right hquestion.symm).symm

/-- A request that keeps the rules is not granted where what is drawn is taken. -/
theorem issue_of_taken (h : ∀ rule, ¬ IssueRequest.Rule.Broken request s.now rule)
    (htaken : s.stores.licenses.byKey.contains (ids 1).toText = true ∨
      s.stores.licenses.byId.contains (ids 2) = true) :
    ((Course.drawing ids).watch (issue request) s).system = s ∧ ∃ failure : Failure,
      ((Course.drawing ids).watch (issue request) s).value = .error failure ∧
      failure.kind = .conflict := by
  rw [watch_issue_of_fault?_eq_none (IssueRequest.Rule.fault?_eq_none h)]
  obtain ⟨failure, hconflict, hanswer⟩ := Stores.answer_create_of_taken
    (request.toLicense s.now (ids 1).toText (ids 2)) s.stores s.now htaken
  simp only [hanswer]
  exact ⟨trivial, failure, rfl, hconflict⟩

/-- A request that keeps the rules is granted, unless what is drawn is taken. -/
theorem issue_of_keeps (h : ∀ rule, ¬ IssueRequest.Rule.Broken request s.now rule) :
    let account := (Course.drawing ids).watch (issue request) s
    if s.stores.licenses.byKey.contains (ids 1).toText ∨ s.stores.licenses.byId.contains (ids 2)
    then account.system = s ∧
      ∃ failure, account.value = .error failure ∧ failure.kind = .conflict
    else ∃ license, request.Granted ids s account license := by
  intro account
  split_ifs with htaken
  · exact issue_of_taken ids h htaken
  · obtain ⟨hkey, hid⟩ := not_or.1 htaken
    exact issue_of_new ids h (by simpa [Table.contains] using hkey)
      (by simpa [Table.contains] using hid)

end License

/-- **What comes of a request for a license.** It fails for a rule exactly if it breaks one, and
then for the first that it breaks, with nothing looked at but the clock. A request that breaks none
is granted, unless the key or the identifier that is drawn is taken: then nothing is stored. -/
theorem License.issue_delivers (ids : Nat → Uuid) (request : IssueRequest) (s : System) :
    let account := (Course.drawing ids).watch (License.issue request) s
    ((∃ failure, account.value = .error failure ∧ failure.kind = .validation) ↔
      ∃ rule, IssueRequest.Rule.Broken request s.now rule) ∧
    (∀ rule, IssueRequest.Rule.FirstBroken request s.now rule →
      account = ⟨[⟨.clock, s.now⟩], .error rule.failure, s⟩) ∧
    ((∀ rule, ¬ IssueRequest.Rule.Broken request s.now rule) →
      if s.stores.licenses.byKey.contains (ids 1).toText ∨ s.stores.licenses.byId.contains (ids 2)
      then account.system = s ∧
        ∃ failure, account.value = .error failure ∧ failure.kind = .conflict
      else ∃ license, request.Granted ids s account license) := by
  intro account
  have hrefused : ∀ rule, IssueRequest.Rule.FirstBroken request s.now rule →
      account = ⟨[⟨.clock, s.now⟩], .error rule.failure, s⟩ :=
    fun rule hfirst ↦ watch_issue_of_fault hfirst.fault?_eq ids
  refine ⟨⟨?_, ?_⟩, hrefused, issue_of_keeps ids⟩
  · rintro ⟨failure, hvalue, hkind⟩
    by_contra hnone
    have hother := issue_of_keeps ids (not_exists.1 hnone)
    split_ifs at hother with htaken
    · obtain ⟨-, conflict, hclash, hconflict⟩ := hother
      cases hvalue.symm.trans hclash
      cases hkind.symm.trans hconflict
    · obtain ⟨license, hgranted⟩ := hother
      cases hvalue.symm.trans hgranted.value
  · rintro ⟨rule, hbroken⟩
    obtain ⟨first, hfirst⟩ := hbroken.exists_first
    rw [hrefused first hfirst]
    exact ⟨_, rfl, first.kind_failure⟩

/-- A license that is bound to a device and soon expires is good at once on that device. -/
theorem License.issue_delivers_bound :
    let device : String × Json := ("device_id", .string "D")
    let metadata : Json := .object [device, ("tier", .string "gold")]
    let request : IssueRequest :=
      ⟨"standard", "app", none, none, some metadata, some ⟨6⟩, none⟩
    let s : System := ⟨⟨.empty, ⟨5⟩⟩, []⟩
    let ids : Nat → Uuid := fun k ↦ ⟨BitVec.ofNat 128 k⟩
    let account := (Course.drawing ids).watch (License.issue request) s
    ∃ license, account.value = .ok license ∧ license.expiresAt = some ⟨6⟩ ∧
      ∃ answer, ((Course.drawing ids).watch
          (License.validate ⟨license.key, "app", some (.object [device])⟩)
          account.system).value = .ok answer ∧ answer.isValid = true := by
  intro device metadata request s ids account
  have hkeeps (rule : IssueRequest.Rule) : ¬ IssueRequest.Rule.Broken request ⟨5⟩ rule :=
    mt IssueRequest.Rule.isBroken_iff.2 (by cases rule <;> decide)
  obtain ⟨license, hgranted⟩ := (License.issue_delivers ids request s).2.2 hkeeps
  have hasked := hgranted.asked
  have hdevice : license.Fits ⟨license.key, "app", some (.object [device])⟩ Metadata.deviceId := by
    intro bound hbound
    rw [hasked.metadata] at hbound
    obtain ⟨⟨⟩, -⟩ := hbound
    exact ⟨rfl, by decide⟩
  have huser : license.Fits ⟨license.key, "app", some (.object [device])⟩ Metadata.userId := by
    intro bound hbound
    rw [hasked.metadata] at hbound
    obtain ⟨⟨⟩, -⟩ := hbound
  obtain ⟨answer, hanswer, hvalid⟩ :=
    hgranted.good _ rfl hasked.product.symm hdevice huser
  exact ⟨license, hgranted.value, hasked.expiresAt, answer, hanswer,
    hvalid.2 ((hasked.status _).2 (.inr ⟨rfl, rfl⟩))⟩

end Licensing
