import Licensing.Proofs.License.Validation
import Licensing.Proofs.System.Chronicle

/-!
# What each thread may do

What a program may do next depends on what it has done before and on the answers that it got
(`Program.Obeys`), and that is settled program by program, without any store: `Origin.obeys`. Of the
effects only two kinds matter to others, calls that can change a store (`Origin.Writes`) and tasks
handed over (`Origin.Submits`). With `Event.Proper.may` each event of a record is known to be one of
these, and the reading that it goes back to is an earlier turn of the same thread.

This is the one place where the programs themselves are looked at for what is proved of runs with a
record. There is a lemma for each (`obeys_validate`, `obeys_pass`, `obeys_issue`, `obeys_amend` and
so on), and `Program.Obeys` composes as programs do (`obeys_bind`). When a program changes, its
lemma does, and perhaps a constructor of `Origin.Writes` or `Origin.Submits`; what is proved from
those two is a case analysis of them and does not unfold anything.
-/

namespace Licensing

/-! ### Programs and their past -/

namespace Program

variable {α β : Type} {may : List Turn → Effect → Prop}

/-- Whatever answers the program gets, it only ever has effects that it may have after its past, and
at its end the past and the value are as they should. -/
def Obeys (may : List Turn → Effect → Prop) {α : Type} :
    Program α → List Turn → (List Turn → α → Prop) → Prop
  | .done value, past, post => post past value
  | .act effect next, past, post =>
    may past effect ∧ ∀ answer, Obeys may (next answer) (past ++ [⟨effect, answer⟩]) post

theorem Obeys.mono {p : Program α} {past : List Turn} {post post' : List Turn → α → Prop}
    (h : p.Obeys may past post) (hpost : ∀ past value, post past value → post' past value) :
    p.Obeys may past post' := by
  induction p generalizing past with
  | done value => exact hpost _ _ h
  | act effect next ih => exact ⟨h.1, fun answer ↦ ih answer (h.2 answer)⟩

/-- **One program after another.** -/
theorem obeys_bind {p : Program α} {f : α → Program β} {past : List Turn}
    {post : List Turn → β → Prop} : (p.bind f).Obeys may past post ↔
      p.Obeys may past fun past value ↦ (f value).Obeys may past post := by
  induction p generalizing past with
  | done value => exact Iff.rfl
  | act effect next ih => simp only [Program.bind, Obeys, ih]

/-- The same for operations: the second is only reached when the first succeeds. -/
theorem obeys_operation_bind {op : Operation α} {f : α → Operation β} {past : List Turn}
    {post : List Turn → Except Failure β → Prop} :
    Obeys may (op >>= f : Operation β) past post ↔
      Obeys may op past fun past result ↦ match result with
        | .ok value => Obeys may (f value) past post
        | .error failure => post past (.error failure) := by
  refine obeys_bind.trans (iff_of_eq (congrArg (Obeys may op past) ?_))
  funext past result
  rcases result with failure | value <;> rfl

/-- A program that cannot fail, as the first part of an operation. -/
theorem obeys_lift_bind {p : Program α} {f : α → Operation β} {past : List Turn}
    {post : List Turn → Except Failure β → Prop} :
    Obeys may (ExceptT.lift p >>= f : Operation β) past post ↔
      p.Obeys may past fun past value ↦ Obeys may (f value) past post :=
  obeys_operation_bind.trans obeys_bind

/-- Reading the clock, as the first part of an operation. -/
theorem obeys_clock_bind {f : Instant → Operation β} {past : List Turn}
    {post : List Turn → Except Failure β → Prop} (hmay : may past .clock)
    (h : ∀ now, Obeys may (f now) (past ++ [⟨.clock, now⟩]) post) :
    Obeys may (Operation.clock >>= f : Operation β) past post :=
  obeys_operation_bind.2 ⟨hmay, h⟩

/-- A call, as the first part of an operation. -/
theorem obeys_call_bind {call : StoreCall} {f : call.Answer → Operation β} {past : List Turn}
    {post : List Turn → Except Failure β → Prop} (hmay : may past (.store call))
    (hfailed : ∀ failure, post (past ++ [⟨.store call, .error failure⟩]) (.error failure))
    (h : ∀ result, Obeys may (f result) (past ++ [⟨.store call, .ok result⟩]) post) :
    Obeys may (Operation.call call >>= f : Operation β) past post := by
  refine obeys_operation_bind.2 ⟨hmay, ?_⟩
  rintro (failure | result)
  · exact hfailed failure
  · exact h result

/-- **Who has obeyed from the start goes on to obey.** -/
theorem Follows.obeys {p q : Program α} {past turns : List Turn} {post : List Turn → α → Prop}
    (h : p.Follows turns q) (hp : p.Obeys may past post) : q.Obeys may (past ++ turns) post := by
  induction h generalizing past with
  | refl p => rwa [List.append_nil]
  | step _ ih =>
    rw [List.append_cons]
    exact ih (hp.2 _)

end Program

/-! ### Calls and tasks -/

/-- Whether a call can change a store. -/
def StoreCall.isWrite : StoreCall → Bool
  | create _ | updateStatus _ _ | updateMetadata _ _ | update _ => true
  | createKey _ | updateLastUsed _ _ | disableKey _ => true
  | _ => false

/-- A key as it is first stored. -/
def ApiKey.fresh (now : Instant) (id : Uuid) (generated : GeneratedKey) (description : String)
    (productId : Option Uuid) : ApiKey where
  id := id
  hash := generated.hash
  lookup := generated.lookup
  description := description
  productId := productId
  isEnabled := true
  createdAt := now
  lastUsedAt := none

/-- The turns of a creation that succeeds: a key and an identifier are drawn, the clock is read, and
the key is stored. -/
def ApiKey.Made (format : CredentialFormat) (description : String) (productId : Option Uuid)
    (turns : List Turn) (created : Created) : Prop :=
  ∃ generated id now,
    turns = [⟨.drawKey format, some generated⟩, ⟨.freshId, id⟩, ⟨.clock, now⟩,
      ⟨.store (.createKey (.fresh now id generated description productId)),
        .ok created.apiKey⟩] ∧
    created.fullKey = generated.key

/-- The turns of a check of what an agent presents, and its result. -/
inductive ApiKey.Checked (format : CredentialFormat) :
    Option String → List Turn → AuthResult → Prop
  | missing : Checked format none [] (.rejected .missing)
  | unfit {text : String} {cause : AuthFailure} (h : format.parse text = .error cause) :
      Checked format (some text) [] (.rejected cause)
  | failed {text : String} {credential : Credential} {failure : Failure}
      (h : format.parse text = .ok credential) :
      Checked format (some text)
        [⟨.store (.findEnabledKey credential.lookup), .error failure⟩] (.failed failure)
  | unknown {text : String} {credential : Credential} (h : format.parse text = .ok credential) :
      Checked format (some text)
        [⟨.store (.findEnabledKey credential.lookup), .ok none⟩] (.rejected .notFoundOrDisabled)
  | wrong {text : String} {credential : Credential} {key : ApiKey}
      (h : format.parse text = .ok credential) (hverify : ¬ verifyKey credential.raw key.hash) :
      Checked format (some text)
        [⟨.store (.findEnabledKey credential.lookup), .ok (some key)⟩]
        (.rejected .notFoundOrDisabled)
  | accepted {text : String} {credential : Credential} {key : ApiKey}
      (h : format.parse text = .ok credential) (hverify : verifyKey credential.raw key.hash) :
      Checked format (some text)
        [⟨.store (.findEnabledKey credential.lookup), .ok (some key)⟩,
          ⟨.submit (.noteUse key.id), ()⟩]
        (.accepted key.holder)

/-- A sweep has listed the license, and read the clock when the license was overdue. -/
def Sweep.Found (past : List Turn) (license : License) : Prop :=
  ∃ before query page now after,
    past = before ++ ⟨.store (.list query), .ok page⟩ :: ⟨.clock, now⟩ :: after ∧
      (∃ limit offset, query = .activeByExpiry limit offset) ∧
      license ∈ page.items ∧ license.isExpiredAt now = true

theorem Sweep.Found.mono {past : List Turn} {license : License} (h : Found past license)
    (more : List Turn) : Found (past ++ more) license := by
  obtain ⟨before, query, page, now, after, rfl, hfound⟩ := h
  exact ⟨before, query, page, now, after ++ more, by simp, hfound⟩

namespace Origin

/-- The writes that a thread may attempt after its past, by where it comes from. -/
inductive Writes : Origin → List Turn → StoreCall → Prop
  | issue {request : IssueRequest} {now : Instant} {key id : Uuid}
      (h : request.fault? now = none) :
      Writes (.demand (.issue request)) [⟨.clock, now⟩, ⟨.freshId, key⟩, ⟨.freshId, id⟩]
        (.create (request.toLicense now key.toText id))
  | amend {id : Uuid} {amendment : Amendment} {license : License}
      (h : amendment.fault? = none) :
      Writes (.demand (.amend id amendment)) [⟨.store (.findById id), .ok (some license)⟩]
        (.update (amendment.apply license))
  | assignStatus {id : Uuid} {status : Status} :
      Writes (.demand (.assignStatus id status)) [] (.updateStatus id status)
  | sweep {most limit : Nat} {trigger : Sweep.Trigger} {past : List Turn} {license : License}
      (h : Sweep.Found past license) :
      Writes (.demand (.sweep most limit trigger)) past (.updateStatus license.id .expired)
  | expire {id : Uuid} {parent : Nat} :
      Writes (.task (.expire id) parent) [] (.updateStatus id .expired)
  | enrich {id : Uuid} {metadata : Json} {parent : Nat} :
      Writes (.task (.enrich id metadata) parent) [] (.updateMetadata id metadata)
  | createKey {format : CredentialFormat} {description : String} {productId : Option Uuid}
      {generated : GeneratedKey} {id : Uuid} {now : Instant} :
      Writes (.demand (.createKey format description productId))
        [⟨.drawKey format, some generated⟩, ⟨.freshId, id⟩, ⟨.clock, now⟩]
        (.createKey (.fresh now id generated description productId))
  | revokeKey {id : Uuid} : Writes (.demand (.revokeKey id)) [] (.disableKey id)
  | noteUse {id : Uuid} {parent : Nat} {now : Instant} :
      Writes (.task (.noteUse id) parent) [⟨.clock, now⟩] (.updateLastUsed id now)

/-- The tasks that a thread may hand over after its past. -/
inductive Submits : Origin → List Turn → Task → Prop
  | validate {request : ValidationRequest} {found : Option License} {now : Instant} {work : Task}
      (h : followUp? found request now = some work) :
      Submits (.demand (.validate request))
        [⟨.store (.findByKey request.key), .ok found⟩, ⟨.clock, now⟩] work
  | authenticate {format : CredentialFormat} {text : String} {credential : Credential}
      {key : ApiKey} (hparse : format.parse text = .ok credential)
      (hverify : verifyKey credential.raw key.hash = true) :
      Submits (.demand (.authenticate format (some text)))
        [⟨.store (.findEnabledKey credential.lookup), .ok (some key)⟩] (.noteUse key.id)

/-- Who sets a status: the operator, or a sweep or a task that expires. -/
theorem Writes.updateStatus_cases {origin : Origin} {past : List Turn} {id : Uuid}
    {status : Status} (h : origin.Writes past (.updateStatus id status)) :
    origin = .demand (.assignStatus id status) ∨
      status = .expired ∧
        ((∃ most limit trigger license, origin = .demand (.sweep most limit trigger) ∧
            Sweep.Found past license ∧ license.id = id) ∨
          ∃ parent, origin = .task (.expire id) parent) := by
  cases h with
  | assignStatus => exact .inl rfl
  | sweep hfound => exact .inr ⟨rfl, .inl ⟨_, _, _, _, rfl, hfound, rfl⟩⟩
  | expire => exact .inr ⟨rfl, .inr ⟨_, rfl⟩⟩

/-- Who writes metadata and nothing else: a task that notes an acceptance. -/
theorem Writes.updateMetadata_cases {origin : Origin} {past : List Turn} {id : Uuid}
    {metadata : Json} (h : origin.Writes past (.updateMetadata id metadata)) :
    ∃ parent, origin = .task (.enrich id metadata) parent := by
  cases h
  exact ⟨_, rfl⟩

/-- Who stores a license: the operator, by a request that breaks no rule at the time that was
read. -/
theorem Writes.create_cases {origin : Origin} {past : List Turn} {license : License}
    (h : origin.Writes past (.create license)) :
    ∃ request now key id, origin = .demand (.issue request) ∧
      past = [⟨.clock, now⟩, ⟨.freshId, key⟩, ⟨.freshId, id⟩] ∧ request.fault? now = none ∧
      license = request.toLicense now key.toText id := by
  cases h with
  | issue hfault => exact ⟨_, _, _, _, rfl, rfl, hfault, rfl⟩

/-- Who edits a license: the operator, by an amendment that breaks no rule of what was read. -/
theorem Writes.update_cases {origin : Origin} {past : List Turn} {edit : License}
    (h : origin.Writes past (.update edit)) :
    ∃ id amendment license, origin = .demand (.amend id amendment) ∧
      past = [⟨.store (.findById id), .ok (some license)⟩] ∧ amendment.fault? = none ∧
      edit = amendment.apply license := by
  cases h with
  | amend hfault => exact ⟨_, _, _, rfl, rfl, hfault, rfl⟩

/-- Who hands over a task that writes to a license: a validation, and it follows from what was
found. -/
theorem Submits.followUp {origin : Origin} {past : List Turn} {work : Task}
    (h : origin.Submits past work) (hwork : ∀ id, work ≠ .noteUse id) :
    ∃ request license now, origin = .demand (.validate request) ∧
      past = [⟨.store (.findByKey request.key), .ok (some license)⟩, ⟨.clock, now⟩] ∧
      followUp? (some license) request now = some work := by
  cases h with
  | @validate request found now _ hfollows =>
    rcases found with - | license
    · cases hfollows
    · exact ⟨request, license, now, rfl, rfl, hfollows⟩
  | authenticate => exact absurd rfl (hwork _)

/-- The effects that a thread may have after its past. -/
def May (origin : Origin) (past : List Turn) : Effect → Prop
  | .store call => call.isWrite = true → origin.Writes past call
  | .submit work => origin.Submits past work
  | _ => True

/-! ### Program by program -/

variable {past : List Turn}

theorem obeys_validate (request : ValidationRequest) :
    (License.validate request).Obeys (May (.demand (.validate request))) [] fun _ _ ↦ True := by
  rw [License.validate_eq]
  refine ⟨nofun, ?_⟩
  rintro (failure | found)
  · trivial
  · refine ⟨trivial, fun now ↦ ?_⟩
    show Program.Obeys _ (License.judge found request now) _ _
    unfold License.judge
    split
    · next work hwork => exact ⟨.validate hwork, fun _ ↦ ⟨trivial, fun _ ↦ trivial⟩⟩
    · exact ⟨trivial, fun _ ↦ trivial⟩

theorem obeys_expireAll {most limit : Nat} {started trigger : Sweep.Trigger}
    {licenses : List License} (h : ∀ license ∈ licenses, Sweep.Found past license) :
    (Sweep.expireAll trigger licenses).Obeys (May (.demand (.sweep most limit started))) past
      fun _ _ ↦ True := by
  induction licenses generalizing past with
  | nil => trivial
  | cons license rest ih =>
    have hrest : ∀ more, ∀ other ∈ rest, Sweep.Found (past ++ more) other :=
      fun more other hother ↦ (h other (List.mem_cons_of_mem license hother)).mono more
    refine ⟨fun _ ↦ .sweep (h license List.mem_cons_self), ?_⟩
    rintro (failure | -)
    · refine ⟨trivial, fun _ ↦ ?_⟩
      show Program.Obeys _ (Program.bind (Sweep.expireAll trigger rest) _) _ _
      rw [List.append_assoc]
      exact Program.obeys_bind.2 ((ih (hrest _)).mono fun _ _ _ ↦ trivial)
    · show Program.Obeys _ (Program.bind (Sweep.expireAll trigger rest) _) _ _
      exact Program.obeys_bind.2 ((ih (hrest _)).mono fun _ _ _ ↦ trivial)

theorem obeys_page {most size : Nat} {trigger : Sweep.Trigger} {limit : Nat}
    {progress : Sweep.Progress} :
    Program.Obeys (May (.demand (.sweep most size trigger))) (Sweep.page limit progress) past
      fun _ _ ↦ True := by
  refine Program.obeys_call_bind nofun (fun failure ↦ trivial) fun listed ↦ ?_
  refine Program.obeys_clock_bind trivial fun now ↦ ?_
  refine Program.obeys_lift_bind.2 ((obeys_expireAll fun license hlicense ↦ ?_).mono
    fun _ _ _ ↦ trivial)
  obtain ⟨hmem, hpast⟩ := List.mem_filter.1 hlicense
  exact ⟨past, _, listed, now, [], by simp, ⟨_, _, rfl⟩, hmem, hpast⟩

theorem obeys_pages {most size : Nat} {trigger : Sweep.Trigger} {limit left : Nat}
    {progress : Sweep.Progress} :
    Program.Obeys (May (.demand (.sweep most size trigger))) (Sweep.pages limit left progress) past
      fun _ _ ↦ True := by
  induction left generalizing past progress with
  | zero => trivial
  | succ left ih =>
    refine Program.obeys_operation_bind.2 (obeys_page.mono ?_)
    rintro past (failure | ⟨next, - | -⟩) -
    · trivial
    · exact ih
    · trivial

theorem obeys_pass {most limit : Nat} {trigger : Sweep.Trigger} :
    Program.Obeys (May (.demand (.sweep most limit trigger))) (Sweep.pass most limit trigger) []
      fun _ _ ↦ True := by
  refine Program.obeys_operation_bind.2 (obeys_pages.mono ?_)
  rintro past (failure | - | report) -
  · trivial
  · trivial
  · exact ⟨trivial, fun _ ↦ trivial⟩

theorem obeys_issue (request : IssueRequest) :
    Program.Obeys (May (.demand (.issue request))) (License.issue request) [] fun _ _ ↦ True := by
  refine Program.obeys_clock_bind trivial fun now ↦ ?_
  cases hfault : request.fault? now with
  | some fault => trivial
  | none =>
    exact ⟨trivial, fun key ↦ ⟨trivial, fun id ↦ ⟨fun _ ↦ .issue hfault, fun _ ↦ trivial⟩⟩⟩

/-- What a fetch ends with is what it was answered. -/
theorem obeys_fetch {origin : Origin} (id : Uuid) :
    Program.Obeys origin.May (License.fetch id) [] fun turns result ↦
      ∀ license, result = .ok license →
        turns = [⟨.store (.findById id), .ok (some license)⟩] := by
  refine Program.obeys_call_bind nofun (fun failure license heq ↦ by cases heq) ?_
  rintro (- | found) license heq
  · cases heq
  · cases heq
    rfl

theorem obeys_amend (id : Uuid) (amendment : Amendment) :
    Program.Obeys (May (.demand (.amend id amendment))) (License.amend id amendment) []
      fun _ _ ↦ True := by
  refine Program.obeys_operation_bind.2 ((obeys_fetch id).mono ?_)
  rintro turns (failure | license) hfetched
  · trivial
  obtain rfl := hfetched license rfl
  simp only
  split
  · trivial
  · split
    · trivial
    · next hfault =>
      refine ⟨fun _ ↦ .amend hfault, ?_⟩
      rintro (failure | stored) <;> trivial

/-- A creation that succeeds has stored the key that it drew. -/
theorem obeys_createKey (format : CredentialFormat) (description : String)
    (productId : Option Uuid) :
    Program.Obeys (May (.demand (.createKey format description productId)))
      (ApiKey.create format description productId) [] fun turns result ↦
        ∀ created, result = .ok created →
          ApiKey.Made format description productId turns created := by
  unfold ApiKey.create
  by_cases hblank : Text.allBlank description.toList = true
  · rw [if_pos hblank]
    exact nofun
  · rw [if_neg hblank]
    refine Program.obeys_lift_bind.2 ⟨trivial, ?_⟩
    rintro (- | generated)
    · exact nofun
    · refine ⟨trivial, fun id ↦ ⟨trivial, fun now ↦ ⟨fun _ ↦ .createKey, ?_⟩⟩⟩
      rintro (failure | apiKey)
      · exact nofun
      · rintro created ⟨⟩
        exact ⟨generated, id, now, rfl, rfl⟩

theorem obeys_check (format : CredentialFormat) (presented : Option String) :
    (ApiKey.check format presented).Obeys (May (.demand (.authenticate format presented))) []
      (ApiKey.Checked format presented) := by
  rcases presented with - | text
  · exact .missing
  unfold ApiKey.check
  rcases hparse : format.parse text with cause | credential
  · simp only [hparse]
    exact .unfit hparse
  · simp only [hparse]
    refine ⟨nofun, ?_⟩
    rintro (failure | - | key)
    · exact .failed hparse
    · exact .unknown hparse
    · simp only [Program.bind]
      cases hverify : verifyKey credential.raw key.hash with
      | true => exact ⟨.authenticate hparse hverify, fun _ ↦ .accepted hparse hverify⟩
      | false => exact .wrong hparse (Bool.not_eq_true _ ▸ hverify)

/-- An authentication is a check, and the result is counted. -/
theorem obeys_authenticate (format : CredentialFormat) (presented : Option String) :
    (ApiKey.authenticate format presented).Obeys (May (.demand (.authenticate format presented)))
      [] fun turns result ↦ ∃ checking, ApiKey.Checked format presented checking result ∧
        turns = checking ++ [⟨.count (.authentications result.outcome) 1, ()⟩] :=
  Program.obeys_bind.2 ((obeys_check format presented).mono fun turns _ h ↦
    ⟨trivial, fun _ ↦ ⟨turns, h, rfl⟩⟩)

theorem obeys_task (work : Task) (parent : Nat) :
    Program.Obeys (May (.task work parent)) work.program [] fun _ _ ↦ True := by
  cases work with
  | expire id =>
    refine ⟨fun _ ↦ .expire, ?_⟩
    rintro (failure | -)
    · trivial
    · exact ⟨trivial, fun _ ↦ trivial⟩
  | enrich id metadata => exact ⟨fun _ ↦ .enrich, fun _ ↦ trivial⟩
  | noteUse id => exact ⟨trivial, fun now ↦ ⟨fun _ ↦ .noteUse, fun _ ↦ trivial⟩⟩

/-- **What each thread may do**: one that starts from its origin obeys. -/
theorem obeys : (origin : Origin) → origin.program.Obeys origin.May [] fun _ _ ↦ True
  | .demand (.validate request) => obeys_validate request
  | .demand (.sweep _ _ _) => obeys_pass
  | .demand (.issue request) => obeys_issue request
  | .demand (.amend id amendment) => obeys_amend id amendment
  | .demand (.assignStatus _ _) => ⟨fun _ ↦ .assignStatus, fun _ ↦ trivial⟩
  | .demand (.fetch id) => (obeys_fetch id).mono fun _ _ _ ↦ trivial
  | .demand (.browse _) => ⟨nofun, fun _ ↦ trivial⟩
  | .demand .summary => ⟨trivial, fun _ ↦ ⟨nofun, fun _ ↦ trivial⟩⟩
  | .demand (.createKey format description productId) =>
    (obeys_createKey format description productId).mono fun _ _ _ ↦ trivial
  | .demand (.revokeKey _) => ⟨fun _ ↦ .revokeKey, fun _ ↦ trivial⟩
  | .demand .browseKeys => ⟨nofun, fun _ ↦ trivial⟩
  | .demand (.authenticate format presented) =>
    (obeys_authenticate format presented).mono fun _ _ _ ↦ trivial
  | .task work parent => obeys_task work parent

end Origin

/-! ### Events -/

namespace Event.Proper

variable {admits : Demand → Prop} {past : List Event} {e : Event}

/-- **Each event is one that its thread may have after its past.** -/
theorem may (h : e.Proper admits past) : e.origin.May (turnsOf e.thread past) e.turn.1 := by
  obtain ⟨next, hfollows⟩ := h.follows
  exact (hfollows.obeys e.origin.obeys).1

theorem writes (h : e.Proper admits past) {call : StoreCall} (hcall : e.turn.1 = .store call)
    (hwrite : call.isWrite = true) : e.origin.Writes (turnsOf e.thread past) call := by
  have hmay := h.may
  rw [hcall] at hmay
  exact hmay hwrite

theorem submits (h : e.Proper admits past) {work : Task} (hwork : e.turn.1 = .submit work) :
    e.origin.Submits (turnsOf e.thread past) work := by
  have hmay := h.may
  rwa [hwork] at hmay

end Event.Proper

end Licensing
