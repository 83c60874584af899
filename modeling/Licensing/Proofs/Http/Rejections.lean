import Licensing.Proofs.ApiKey.Lifetime
import Licensing.Proofs.Http.Guards
import Mathlib.Data.List.Forall2

/-!
# Rejected keys look alike

An agent may present a key that fits the format and still not be let in: nobody has the lookup part,
or the key is disabled, or the secret is wrong. From outside nobody can tell which
(`Service.rejected_alike`): two requests that differ in nothing but such keys are answered, counted
and logged the same, whatever is stored. The keys themselves do not get into the log
(`Request.SameButKey.headersText_eq`).

The main result rests on what a key that is not accepted comes to, said without the key and without
what is stored (`Shows.run_serve`). Its parts are that an authentication which rejects has done a
lookup and a count, whatever the cause (`run_authenticate_of_not_accepts`), and that a request is
logged with the values of such headers left out. The one thing that may differ between two formats
is whether a header can hold their keys at all, and that is a matter of the format and not of the
key (`CredentialFormat.isSome_readable?_raw`).
-/

namespace Licensing

/-! ### Reading keys -/

/-- Segments have a property letter by letter exactly if the text has it. -/
theorem Text.forall_segments_iff (sep : Char) {P : Char → Prop} (hsep : P sep) (s : List Char) :
    (∀ segment ∈ segments sep s, ∀ c ∈ segment, P c) ↔ ∀ c ∈ s, P c := by
  induction s with
  | nil => simp [segments]
  | cons c rest ih =>
    rw [segments]
    split
    · next heq => simp [ih, heq, hsep]
    · split
      · next hnil => exact absurd hnil (segments_ne_nil sep rest)
      · next first others hcons =>
        rw [hcons] at ih
        simp only [List.forall_mem_cons] at ih ⊢
        rw [← ih, and_assoc]

/-- The parts of a key that parses. -/
theorem CredentialFormat.segments_of_parse {format : CredentialFormat} {text : String}
    {credential : Credential} (h : format.parse text = .ok credential) :
    ∃ lookup secret, isPart lookup = true ∧ isPart secret = true ∧
      Text.segments delimiter credential.raw.toList = [format.scheme.toList, lookup, secret] := by
  obtain ⟨lookup, secret, hsegments, ⟨-, hlookup, hsecret⟩, rfl⟩ := parse_eq_ok_iff.1 h
  exact ⟨lookup, secret, hlookup, hsecret, by rw [Text.trimmed, String.toList_ofList, hsegments]⟩

namespace Http

/-- Whether a letter can be read in a header. -/
def legible (c : Char) : Bool := c = '\t' || (0x20 ≤ c.toNat && c.toNat < 0x7F)

theorem isSome_readable?_iff {value : String} :
    (readable? value).isSome = true ↔ ∀ c ∈ value.toList, legible c = true := by
  unfold readable?
  rw [← List.all_eq_true]
  split
  · next h => simpa [legible] using h
  · next h => simpa [legible] using h

theorem legible_of_isPart {s : List Char} (h : CredentialFormat.isPart s = true) :
    ∀ c ∈ s, legible c = true := by
  rw [CredentialFormat.isPart, Bool.and_eq_true, List.all_eq_true] at h
  intro c hc
  have hcode := toNat_of_isAlphanum (h.2 c hc)
  unfold legible
  generalize c.toNat = n at hcode ⊢
  simp
  omega

/-- **Keys of one format are all readable, or none is.** -/
theorem isSome_readable?_raw {format : CredentialFormat} {text : String} {credential : Credential}
    (h : format.parse text = .ok credential) :
    (readable? credential.raw).isSome = (readable? format.scheme).isSome := by
  obtain ⟨lookup, secret, hlookup, hsecret, hsegments⟩ := CredentialFormat.segments_of_parse h
  rw [Bool.eq_iff_iff, isSome_readable?_iff, isSome_readable?_iff,
    ← Text.forall_segments_iff CredentialFormat.delimiter (by decide), hsegments]
  simp only [List.forall_mem_cons]
  exact ⟨fun hall ↦ hall.1, fun hscheme ↦ ⟨hscheme, legible_of_isPart hlookup,
    legible_of_isPart hsecret, List.forall_mem_nil _⟩⟩

/-! ### Requests that differ in a key -/

/-- The headers have the same name, and the same value unless they hold a key. -/
def SameHeader (a b : String × String) : Prop := a.1 = b.1 ∧ (a.1 ≠ "x-api-key" → a.2 = b.2)

/-- The requests differ in nothing but what stands in their headers for API keys. -/
structure Request.SameButKey (request other : Request) : Prop where
  method_eq : request.method = other.method
  path_eq : request.path = other.path
  query_eq : request.query = other.query
  body_eq : request.body = other.body
  headers : List.Forall₂ SameHeader request.headers other.headers

theorem headerText_eq {a b : String × String} (h : SameHeader a b) :
    Request.headerText a = Request.headerText b := by
  obtain ⟨name, value⟩ := a
  obtain ⟨name', value'⟩ := b
  obtain ⟨rfl, hvalue⟩ : name = name' ∧ (name ≠ "x-api-key" → value = value') := h
  unfold Request.headerText
  by_cases hkey : name = "x-api-key"
  · have hsecret : Request.isSecret name = true := hkey ▸ by decide
    rw [if_pos hsecret, if_pos hsecret]
  · rw [hvalue hkey]

namespace Request.SameButKey

variable {request other : Request}

/-- Headers with other names are the same. -/
theorem header?_eq (h : request.SameButKey other) {name : String} (hname : name ≠ "x-api-key") :
    request.header? name = other.header? name := by
  have hlookup : ∀ {headers others : List (String × String)},
      List.Forall₂ SameHeader headers others → headers.lookup name = others.lookup name := by
    intro headers others hall
    induction hall with
    | nil => rfl
    | @cons a b headers others hsame _ ih =>
      obtain ⟨first, value⟩ := a
      obtain ⟨first', value'⟩ := b
      obtain ⟨rfl, hvalue⟩ : first = first' ∧ (first ≠ "x-api-key" → value = value') := hsame
      by_cases heq : name = first
      · rw [heq] at hname
        rw [heq, List.lookup_cons_self, List.lookup_cons_self, hvalue hname]
      · have hother : (name == first) = false := beq_false_of_ne heq
        rw [List.lookup_cons, List.lookup_cons, hother]
        exact ih
  exact hlookup h.headers

/-- Headers are grouped the same. -/
theorem groupedHeaders (h : request.SameButKey other) :
    List.Forall₂ SameHeader request.groupedHeaders other.groupedHeaders := by
  have hnames : request.headers.map (·.1) = other.headers.map (·.1) := by
    rw [← List.forall₂_eq_eq_eq, List.forall₂_map_left_iff, List.forall₂_map_right_iff]
    exact h.headers.imp fun _ _ hsame ↦ hsame.1
  have hnamed : ∀ name, List.Forall₂ SameHeader (request.headers.filter (·.1 = name))
      (other.headers.filter (·.1 = name)) := by
    intro name
    refine List.rel_filter ?_ h.headers
    intro a b hsame
    simp [hsame.1]
  unfold Request.groupedHeaders
  rw [hnames]
  generalize (other.headers.map (·.1)).eraseDups = names
  induction names with
  | nil => exact .nil
  | cons name names ih => exact List.rel_append (hnamed name) ih

/-- **The log does not show the keys.** -/
theorem headersText_eq (h : request.SameButKey other) :
    request.headersText = other.headersText := by
  have hlogged : List.Forall₂ SameHeader (request.groupedHeaders.filter (isLogged ·.1))
      (other.groupedHeaders.filter (isLogged ·.1)) := by
    refine List.rel_filter ?_ h.groupedHeaders
    intro a b hsame
    simp [hsame.1]
  have htexts : (request.groupedHeaders.filter (isLogged ·.1)).map headerText =
      (other.groupedHeaders.filter (isLogged ·.1)).map headerText := by
    rw [← List.forall₂_eq_eq_eq, List.forall₂_map_left_iff, List.forall₂_map_right_iff]
    exact hlogged.imp fun _ _ hsame ↦ headerText_eq hsame
  unfold headersText
  rw [htexts]

/-- The entry in the log is the same. -/
theorem arrived_eq (h : request.SameButKey other) (id : String) :
    arrived request id = arrived other id := by
  unfold arrived label
  rw [h.method_eq, h.path_eq, h.headersText_eq]

end Request.SameButKey

end Http

/-! ### Rejecting -/

/-- The key that a credential is for is stored and enabled, and has the stored hash. -/
def ApiKeyStore.Accepts (store : ApiKeyStore) (credential : Credential) : Prop :=
  ∃ key, store.findEnabled credential.lookup = some key ∧
    verifyKey credential.raw key.hash = true

namespace World

variable {world : World}

/-- **A rejection leaves no trace of its cause**: the key was looked up, and the rejection is
counted. -/
theorem run_authenticate_of_not_accepts {format : CredentialFormat} {text : String}
    {credential : Credential} (hparse : format.parse text = .ok credential)
    (hlookup : world.failure? (.findEnabledKey credential.lookup) = none)
    (hunknown : ¬ world.stores.keys.Accepts credential) :
    run (ApiKey.authenticate format (some text)) world = (.rejected .notFoundOrDisabled,
      (world.traced (.findEnabledKey credential.lookup)).counted
        (.authentications (.rejected .notFoundOrDisabled)) 1) := by
  have hperform : world.perform (.store (.findEnabledKey credential.lookup)) =
      (.ok (world.stores.keys.findEnabled credential.lookup),
        world.traced (.findEnabledKey credential.lookup)) := by
    rw [perform_call_of_harmless ⟨rfl, rfl⟩, hlookup, outagesAfter_of_failure?_eq_none hlookup]
    rfl
  have hcheck : run (ApiKey.check format (some text)) world = (.rejected .notFoundOrDisabled,
      world.traced (.findEnabledKey credential.lookup)) := by
    rw [ApiKey.check_eq hparse]
    show run (ApiKey.judge credential (world.perform (.store (.findEnabledKey credential.lookup))).1)
      (world.perform (.store (.findEnabledKey credential.lookup))).2 = _
    rw [hperform]
    rcases hfound : world.stores.keys.findEnabled credential.lookup with - | key
    · rfl
    · have hwrong : ¬ verifyKey credential.raw key.hash = true :=
        fun hverify ↦ hunknown ⟨key, hfound, hverify⟩
      simp only [ApiKey.judge, if_neg hwrong]
      rfl
  rw [ApiKey.authenticate, run_bind, hcheck]
  rfl

/-- The world but for what is stored and the calls that were made: what is left are the counters,
the log and the background above all. -/
def outside (world : World) : World := { world with stores := .empty, trace := [] }

theorem outside_countAll (counters : List Counter) (world : World) :
    (run (Http.Service.countAll counters) world).2.outside =
      (run (Http.Service.countAll counters) world.outside).2 := by
  induction counters generalizing world with
  | nil => rfl
  | cons counter counters ih => exact ih (world.counted counter 1)

end World

namespace Http.Service

variable {service : Service} {request other : Request} {first second credential : Credential}
  {world : World}

/-- The header for API keys holds a key of the format, perhaps between blanks, though none that a
header could not hold. -/
def Shows (service : Service) (request : Request) (credential : Credential) : Prop :=
  ∃ value, request.header? "x-api-key" = some value ∧
    service.format.parse value = .ok credential ∧
    (readable? value).isSome = (readable? credential.raw).isSome

/-- What can be read of a value is all of it. -/
theorem eq_of_readable? {value text : String} (h : readable? value = some text) : text = value := by
  unfold readable? at h
  split at h
  · exact (Option.some.inj h).symm
  · cases h

/-- Who shows a key that is not accepted is not known. -/
theorem Shows.not_knowsAgent (h : service.Shows request credential)
    (hunknown : ¬ world.stores.keys.Accepts credential) :
    ¬ service.KnowsAgent request world := by
  rintro ⟨presented, key, ⟨value, text, hvalue, hread, hparse⟩, -, hfound, hverify⟩
  obtain ⟨value', hvalue', hparse', -⟩ := h
  obtain rfl : value = value' := Option.some.inj (hvalue.symm.trans hvalue')
  obtain rfl : text = value := eq_of_readable? hread
  obtain rfl : presented = credential := Except.ok.inj (hparse.symm.trans hparse')
  exact hunknown ⟨key, hfound, hverify⟩

/-- How a key that is not accepted is refused: as one that nobody has, or, where no key of the
format can be read in a header, as malformed. -/
def rejection (service : Service) : Response :=
  if (readable? service.format.scheme).isSome then
    (Problem.ofAuthFailure .notFoundOrDisabled).response
  else (Problem.ofAuthFailure .malformed).response

/-- What is counted of it; what cannot be read is not counted. -/
def rejected (service : Service) (world : World) : World :=
  if (readable? service.format.scheme).isSome then
    world.counted (.authentications (.rejected .notFoundOrDisabled)) 1
  else world

/-- **Every key that is shown and not accepted is refused in one way.** -/
theorem Shows.run_agent (h : service.Shows request credential) (world : World)
    (hlookup : world.failure? (.findEnabledKey credential.lookup) = none)
    (hunknown : ¬ world.stores.keys.Accepts credential) :
    (World.run (Handler.agent service request).run world).1 = .error service.rejection ∧
      (World.run (Handler.agent service request).run world).2.outside =
        service.rejected world.outside := by
  obtain ⟨value, hvalue, hparse, hreadable⟩ := h
  rw [isSome_readable?_raw hparse] at hreadable
  rw [Handler.agent_eq, hvalue, rejection, rejected, ← hreadable]
  rcases hread : readable? value with - | text
  · simp only [hread]
    exact ⟨rfl, rfl⟩
  · obtain rfl : text = value := eq_of_readable? hread
    have hrun : World.run (Handler.admitted service (some text)) world =
        (.error (Problem.ofAuthFailure .notFoundOrDisabled).response,
          (world.traced (.findEnabledKey credential.lookup)).counted
            (.authentications (.rejected .notFoundOrDisabled)) 1) := by
      refine (World.run_bind _ _ _).trans ?_
      rw [World.run_authenticate_of_not_accepts hparse hlookup hunknown]
      rfl
    simp only [hread, hrun, Option.isSome_some, if_true, true_and]
    rfl

/-- Upon the arrival, requests that differ in a key look alike from outside. -/
theorem outside_arrival (h : request.SameButKey other) (a b : Stores) :
    (arrival request { world with stores := a }).outside =
      (arrival other { world with stores := b }).outside := by
  have hbrought : request.header? "x-request-id" = other.header? "x-request-id" :=
    h.header?_eq (by decide)
  unfold arrival
  rw [run_requestId, run_requestId, hbrought]
  split
  · simp only [h.arrived_eq]
    rfl
  · simp only [h.arrived_eq]
    rfl

/-- A request to the page of the metrics leaves the world alone, whatever it shows. -/
theorem serve_of_page (hpage : service.metricsPage = some request.path)
    (hmethod : request.method = .post) : service.serve request = .done ⟨405, .none⟩ := by
  have hunobserved : service.unobserved? request = some ⟨405, .none⟩ := by
    unfold unobserved?
    simp [hpage, hmethod]
  unfold serve
  rw [hunobserved, hmethod]
  rfl

/-- **How it ends when a shown key is not accepted**, as seen from outside: neither the key nor what
is stored has a part in it. -/
theorem Shows.run_serve (h : service.Shows request credential)
    (hleads : service.Leads request .validation) (world : World)
    (hlookup : world.failure? (.findEnabledKey credential.lookup) = none)
    (hunknown : ¬ world.stores.keys.Accepts credential) :
    (World.run (service.serve request) world).1 = service.rejection.to request.method ∧
      (World.run (service.serve request) world).2.outside =
        (World.run (countAll (counters request service.rejection))
          (service.rejected (arrival request world).outside)).2 := by
  obtain ⟨idsDrawn, log, harrival⟩ := arrival_eq request world
  obtain ⟨hrefused, hafter⟩ := h.run_agent (arrival request world)
    (by rw [harrival]; exact hlookup) (by rw [harrival]; exact hunknown)
  obtain ⟨f, hendpoint⟩ := hleads.exists_agent
  obtain ⟨hrun, -⟩ := serve_of_refused hleads hendpoint hrefused
  rw [hrun, World.outside_countAll, hafter]
  exact ⟨rfl, rfl⟩

/-- **Rejected keys cannot be told apart.** Two requests for a validation show keys of the format and
differ in nothing else. The one comes to some stores and the other to others; neither key is
accepted there, be it that nobody has it, that it is disabled or that its secret is wrong, and no
lookup fails. Then the responses are the same, and so is everything in the world but what is stored
and which calls were made, the counters and the log in particular. Both stores are left as they were
and no task is handed over. -/
theorem rejected_alike (hsame : request.SameButKey other) (hmethod : request.method = .post)
    (hpath : Route.ofPath? request.path = some .validation)
    (hfirst : service.Shows request first) (hsecond : service.Shows other second)
    (world : World) {a b : Stores} (ha : ¬ a.keys.Accepts first) (hb : ¬ b.keys.Accepts second)
    (hlookup : world.failure? (.findEnabledKey first.lookup) = none)
    (hlookup' : world.failure? (.findEnabledKey second.lookup) = none) :
    (World.run (service.serve request) { world with stores := a }).1 =
        (World.run (service.serve other) { world with stores := b }).1 ∧
      (World.run (service.serve request) { world with stores := a }).2.outside =
        (World.run (service.serve other) { world with stores := b }).2.outside ∧
      World.LeavesAlone { world with stores := a } (service.serve request) ∧
      World.LeavesAlone { world with stores := b } (service.serve other) := by
  have hmethod' : other.method = .post := hsame.method_eq ▸ hmethod
  by_cases hpage : service.metricsPage = some request.path
  · have hpage' : service.metricsPage = some other.path := hsame.path_eq ▸ hpage
    rw [serve_of_page hpage hmethod, serve_of_page hpage' hmethod']
    exact ⟨rfl, rfl, World.leavesAlone (List.forall_mem_nil _),
      World.leavesAlone (List.forall_mem_nil _)⟩
  · have hleads : service.Leads request .validation := by
      refine ⟨hpage, hpath, ?_⟩
      rw [Request.answeredAs, hmethod]
      rfl
    have hleads' : service.Leads other .validation := by
      refine ⟨hsame.path_eq ▸ hpage, hsame.path_eq ▸ hpath, ?_⟩
      rw [Request.answeredAs, hmethod']
      rfl
    obtain ⟨hanswer, hafter⟩ := hfirst.run_serve hleads { world with stores := a } hlookup ha
    obtain ⟨hanswer', hafter'⟩ := hsecond.run_serve hleads' { world with stores := b } hlookup' hb
    have hcounters : counters request service.rejection = counters other service.rejection := by
      unfold counters Request.label
      rw [hsame.method_eq, hsame.path_eq]
    refine ⟨?_, ?_, (hleads.without_agent (hfirst.not_knowsAgent ha)).1,
      (hleads'.without_agent (hsecond.not_knowsAgent hb)).1⟩
    · rw [hanswer, hanswer', hmethod, hmethod']
    · rw [hafter, hafter', hcounters, outside_arrival hsame a b]

/-- A question that shows a key. -/
def showing (key : String) : Request :=
  { method := .post, path := "/api/v1/licenses/validate", headers := [("x-api-key", key)] }

/-- A store with one key, which is disabled. -/
def disabledOnly : Stores where
  licenses := .empty
  keys := .added .empty { (default : ApiKey) with lookup := "bbbbbbbb", isEnabled := false }

/-- A key that nobody has cannot be told from one that is disabled. -/
theorem rejected_alike_disabled : ∃ first second,
    ({} : Service).Shows (showing "lm_aaaaaaaa_s") first ∧
    ({} : Service).Shows (showing "lm_bbbbbbbb_s") second ∧
    ¬ Stores.empty.keys.Accepts first ∧ ¬ disabledOnly.keys.Accepts second ∧
    (World.run (({} : Service).serve (showing "lm_aaaaaaaa_s")) { now := ⟨0⟩ }).1 =
      (World.run (({} : Service).serve (showing "lm_bbbbbbbb_s"))
        { now := ⟨0⟩, stores := disabledOnly }).1 := by
  have hfirst : ({} : Service).Shows (showing "lm_aaaaaaaa_s") ⟨"lm_aaaaaaaa_s", "aaaaaaaa"⟩ :=
    ⟨_, rfl, by rfl, rfl⟩
  have hsecond : ({} : Service).Shows (showing "lm_bbbbbbbb_s") ⟨"lm_bbbbbbbb_s", "bbbbbbbb"⟩ :=
    ⟨_, rfl, by rfl, rfl⟩
  have hsame : (showing "lm_aaaaaaaa_s").SameButKey (showing "lm_bbbbbbbb_s") :=
    ⟨rfl, rfl, rfl, rfl, .cons ⟨rfl, fun hkey ↦ absurd rfl hkey⟩ .nil⟩
  have hunknown : ¬ Stores.empty.keys.Accepts ⟨"lm_aaaaaaaa_s", "aaaaaaaa"⟩ := by
    rintro ⟨key, hfound, -⟩
    cases hfound
  have hdisabled : ¬ disabledOnly.keys.Accepts ⟨"lm_bbbbbbbb_s", "bbbbbbbb"⟩ := by
    have hnone : disabledOnly.keys.findEnabled "bbbbbbbb" = none := by decide
    rintro ⟨key, hfound, -⟩
    cases hnone.symm.trans hfound
  exact ⟨_, _, hfirst, hsecond, hunknown, hdisabled,
    (rejected_alike hsame rfl (by decide) hfirst hsecond { now := ⟨0⟩ } hunknown hdisabled rfl
      rfl).1⟩

end Http.Service

end Licensing
