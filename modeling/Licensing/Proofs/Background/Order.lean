import Licensing.Proofs.System.Strands
import Licensing.World

/-!
# The order of background tasks

The background may do its tasks in any order. What the stores are in the end does not depend on it
(`World.stores_background_eq`), as long as the enrichments of any one license, if there are several,
come in the same order: an enrichment replaces the metadata as a whole, so of two the later one
stays (`Stores.worked_enrich_ne`).

* A task makes a single call, and what it does to the stores is what that call does
  (`Stores.worked`).
* Any two tasks, unless both enrich one license, can change places (`Stores.worked_comm`). That a
  license is expired and enriched at once is no exception, since the two write different fields,
  and the time of change is that of the one clock.
* So the orders in question can be turned into each other, task by task (`foldl_eq_of_perm`).

The main result rests on these three and on tasks coming to their end in a world where nothing goes
wrong (`Faultless.background`). Where calls may fail, which task meets the failure does depend on
the order.
-/

namespace Licensing

/-! ### Changing places -/

private theorem foldl_comm {α β : Type} {f : β → α → β} {a : α} {before : List α}
    (h : ∀ b ∈ before, ∀ s, f (f s a) b = f (f s b) a) (s : β) :
    f (before.foldl f s) a = before.foldl f (f s a) := by
  induction before generalizing s with
  | nil => rfl
  | cons b before ih =>
    rw [List.foldl_cons, List.foldl_cons, h b List.mem_cons_self,
      ih fun c hc ↦ h c (List.mem_cons_of_mem b hc)]

private theorem eq_of_perm_of_length_le_one {α : Type} {l l' : List α} (hperm : l.Perm l')
    (hone : l.length ≤ 1) : l = l' := by
  match l, hone with
  | [], _ => exact (List.nil_perm.1 hperm).symm
  | [_], _ => exact List.singleton_perm.1 hperm

/-- Where the first element of one list comes later in another, and both have the same elements of a
kind in the same order, nothing of the kind of that element comes before it. -/
private theorem filter_of_filter_cons {α : Type} {p : α → Bool} {a : α} {rest before after : List α}
    (hfirst : a ∉ before) (h : (a :: rest).filter p = (before ++ a :: after).filter p) :
    (p a = true → before.filter p = []) ∧ rest.filter p = (before ++ after).filter p := by
  rw [List.filter_append] at h ⊢
  cases ha : p a with
  | true =>
    rw [List.filter_cons_of_pos ha, List.filter_cons_of_pos ha] at h
    rcases hbefore : before.filter p with - | ⟨b, others⟩
    · rw [hbefore] at h
      exact ⟨fun _ ↦ rfl, (List.cons.inj h).2⟩
    · have hmem : b ∈ before.filter p := hbefore ▸ List.mem_cons_self
      rw [hbefore] at h
      rw [← (List.cons.inj h).1] at hmem
      exact absurd (List.mem_of_mem_filter hmem) hfirst
  | false =>
    have hnot := Bool.eq_false_iff.1 ha
    rw [List.filter_cons_of_neg hnot, List.filter_cons_of_neg hnot] at h
    exact ⟨nofun, h⟩

/-- **Two orders in which all that is of a kind comes in the same order lead to the same**, if
whatever is of no common kind can change places. -/
theorem foldl_eq_of_perm {α β κ : Type} {f : β → α → β} {kind : κ → α → Bool}
    (hcomm : ∀ a b, (∀ k, kind k a = true → kind k b = false) → ∀ s, f (f s a) b = f (f s b) a)
    {l l' : List α} (hperm : l.Perm l') (hkind : ∀ k, l.filter (kind k) = l'.filter (kind k))
    (s : β) : l.foldl f s = l'.foldl f s := by
  induction l generalizing l' s with
  | nil => rw [List.nil_perm.1 hperm]
  | cons a rest ih =>
    -- The first element can be brought to the front of the second order.
    obtain ⟨before, after, rfl, hfirst⟩ :=
      List.eq_append_cons_of_mem (hperm.mem_iff.1 List.mem_cons_self)
    have hpass : ∀ b ∈ before, ∀ s, f (f s a) b = f (f s b) a := by
      intro b hb
      refine hcomm a b fun k hk ↦ Bool.eq_false_iff.2 fun hkb ↦ ?_
      have hapart := (filter_of_filter_cons hfirst (hkind k)).1 hk
      exact List.filter_eq_nil_iff.1 hapart b hb hkb
    have hrest : ∀ k, rest.filter (kind k) = (before ++ after).filter (kind k) := fun k ↦
      (filter_of_filter_cons hfirst (hkind k)).2
    have hmoved : (a :: rest).Perm (a :: (before ++ after)) := hperm.trans List.perm_middle
    calc (a :: rest).foldl f s = (before ++ after).foldl f (f s a) := ih hmoved.cons_inv hrest _
      _ = (before ++ a :: after).foldl f s := by
        rw [List.foldl_append, List.foldl_append, List.foldl_cons, foldl_comm hpass]

/-! ### Tasks -/

/-- Whether a task enriches the license of an identifier. -/
def Task.enriches (id : Uuid) : Task → Bool
  | enrich other _ => other = id
  | _ => false

theorem LicenseStore.changed_comm (store : LicenseStore) {i j : Uuid} {f g : License → License}
    (h : i = j → ∀ license, g (f license) = f (g license)) :
    (store.changed i f).changed j g = (store.changed j g).changed i f := by
  rw [changed, changed, changed, changed, store.byId.modify_comm h]

theorem ApiKeyStore.changed_comm (store : ApiKeyStore) {i j : Uuid} {f g : ApiKey → ApiKey}
    (h : i = j → ∀ key, g (f key) = f (g key)) :
    (store.changed i f).changed j g = (store.changed j g).changed i f := by
  rw [changed, changed, changed, changed, store.byId.modify_comm h]

namespace Stores

variable (stores : Stores) (now : Instant)

/-- Changes of licenses that get along with each other can change places. -/
private theorem licenses_comm {i j : Uuid} {f g : License → License}
    (h : i = j → ∀ license, g (f license) = f (g license)) :
    { stores with licenses := (stores.licenses.changed i f).changed j g } =
      { stores with licenses := (stores.licenses.changed j g).changed i f } := by
  rw [stores.licenses.changed_comm h]

/-- **Any two tasks can change places**, unless both enrich one license. -/
theorem worked_comm {a b : Task} (h : ∀ id, a.enriches id = true → b.enriches id = false) :
    (stores.worked now a).worked now b = (stores.worked now b).worked now a := by
  cases a with
  | expire i =>
    cases b with
    | expire j =>
      simp only [worked_expire]
      exact stores.licenses_comm fun _ _ ↦ rfl
    | enrich j metadata =>
      simp only [worked_expire, worked_enrich]
      exact stores.licenses_comm fun _ _ ↦ rfl
    | noteUse j => simp only [worked_expire, worked_noteUse]
  | enrich i metadata =>
    cases b with
    | expire j =>
      simp only [worked_expire, worked_enrich]
      exact stores.licenses_comm fun _ _ ↦ rfl
    | enrich j metadata' =>
      have hne : i ≠ j := by
        rintro rfl
        simpa [Task.enriches] using h i
      simp only [worked_enrich]
      exact stores.licenses_comm fun heq ↦ absurd heq hne
    | noteUse j => simp only [worked_enrich, worked_noteUse]
  | noteUse i =>
    cases b with
    | expire j => simp only [worked_expire, worked_noteUse]
    | enrich j metadata => simp only [worked_enrich, worked_noteUse]
    | noteUse j =>
      simp only [worked_noteUse]
      rw [stores.keys.changed_comm fun _ _ ↦ rfl]

/-- Of two enrichments of a stored license the later one stays, so they cannot change places unless
they are the same. -/
theorem worked_enrich_ne {id : Uuid} {license : License}
    (hstored : stores.licenses.findById id = some license) {metadata metadata' : Json}
    (hne : metadata ≠ metadata') :
    (stores.worked now (.enrich id metadata)).worked now (.enrich id metadata') ≠
      (stores.worked now (.enrich id metadata')).worked now (.enrich id metadata) := by
  have hlater : ∀ first last, (((stores.worked now (.enrich id first)).worked now
      (.enrich id last)).licenses.findById id).bind (·.metadata) = some last := by
    intro first last
    rw [worked_enrich, worked_enrich,
      LicenseStore.findById_changed (LicenseStore.findById_changed hstored _)]
    rfl
  intro heq
  have hsame := hlater metadata metadata'
  rw [heq, hlater] at hsame
  exact hne (Option.some.inj hsame)

end Stores

/-! ### What the background does -/

namespace World

/-- Nothing goes wrong with the calls of the world: its stores are in memory, and there is no
outage. -/
structure Faultless (world : World) : Prop where
  backend : world.backend = .memory
  outages : world.outages = []

variable {world : World}

/-- The world was changed in nothing that a task looks at but the stores, and the same tasks are
left in the background. -/
structure Works (world : World) (stores : Stores) (after : World) : Prop where
  stores_eq : after.stores = stores
  now_eq : after.now = world.now
  faultless : after.Faultless
  inFlight_eq : after.inFlight = world.inFlight

namespace Works

variable {stores : Stores} {after : World}

/-- What is counted or logged is nothing that a task looks at. -/
theorem counted (h : world.Works stores after) (counter : Counter) (amount : Nat) :
    world.Works stores (after.counted counter amount) :=
  ⟨h.stores_eq, h.now_eq, ⟨h.faultless.backend, h.faultless.outages⟩, h.inFlight_eq⟩

theorem logged (h : world.Works stores after) (entry : LogEntry) :
    world.Works stores (after.logged entry) :=
  ⟨h.stores_eq, h.now_eq, ⟨h.faultless.backend, h.faultless.outages⟩, h.inFlight_eq⟩

end Works

/-- A task goes on with what the stores answer to its call. -/
theorem Faultless.runTask_call (h : world.Faultless) (call : StoreCall)
    (hpages : cannedPage? call world.cannedPages = none)
    (next : Except Failure call.Answer → Operation Unit) (made : Bool) :
    ∃ after : World, runTask (.act (.store call) next) made world =
        runTask (next (world.stores.answer world.now call).1) false after ∧
      world.Works (world.stores.answer world.now call).2 after := by
  cases made with
  | true =>
    refine ⟨{ world with stores := (world.stores.answer world.now call).2 }, ?_,
      rfl, rfl, ⟨h.backend, h.outages⟩, rfl⟩
    simp only [runTask, if_true, settle?, h.outages, strike, reach, hpages, h.backend]
  | false =>
    refine ⟨{ world.traced call with stores := (world.stores.answer world.now call).2 }, ?_,
      rfl, rfl, ⟨h.backend, h.outages⟩, rfl⟩
    simp only [runTask, Bool.false_eq_true, if_false, settle?, traced, h.outages, strike, reach,
      hpages, h.backend]

/-- **A task comes to its end**, and does to the stores what its call does. -/
theorem Faultless.runTask_program (h : world.Faultless) (task : Task) (made : Bool) :
    ∃ result after, runTask task.program made world = (some result, after) ∧
      world.Works (world.stores.worked world.now task) after := by
  cases task with
  | expire id =>
    obtain ⟨after, heq, hworks⟩ := h.runTask_call (.updateStatus id .expired) rfl
      (ExceptT.bindCont fun _ ↦ Operation.count (.expirations .lazy) 1) made
    change runTask (Task.expire id).program made world = _ at heq
    rw [heq]
    cases (world.stores.answer world.now (.updateStatus id .expired)).1 with
    | ok _ => exact ⟨_, _, rfl, hworks.counted _ 1⟩
    | error failure => exact ⟨_, _, rfl, hworks⟩
  | enrich id metadata =>
    obtain ⟨after, heq, hworks⟩ := h.runTask_call (.updateMetadata id metadata) rfl .done made
    exact ⟨_, after, heq, hworks⟩
  | noteUse id =>
    obtain ⟨after, heq, hworks⟩ := h.runTask_call (.updateLastUsed id world.now) rfl .done made
    exact ⟨_, after, heq, hworks⟩

/-- The tasks are done one after another, and none is left. -/
theorem Faultless.foldl_runOne (h : world.Faultless) {flights : List InFlight}
    (hfresh : ∀ flight ∈ flights, flight.rest = flight.task.program) :
    world.Works ((flights.map (·.task)).foldl (·.worked world.now ·) world.stores)
      (flights.foldl runOne world) := by
  induction flights generalizing world with
  | nil => exact ⟨rfl, rfl, h, rfl⟩
  | cons flight flights ih =>
    obtain ⟨result, after, heq, hworks⟩ := h.runTask_program flight.task flight.waiting
    have hone : world.Works (world.stores.worked world.now flight.task) (world.runOne flight) := by
      rw [runOne, hfresh flight List.mem_cons_self, heq]
      cases result with
      | ok _ => exact hworks
      | error failure => exact hworks.logged _
    have hrest := ih hone.faultless fun other hother ↦
      hfresh other (List.mem_cons_of_mem flight hother)
    rw [hone.stores_eq, hone.now_eq] at hrest
    exact ⟨hrest.stores_eq, hrest.now_eq.trans hone.now_eq, hrest.faultless,
      hrest.inFlight_eq.trans hone.inFlight_eq⟩

/-- **What the background does to the stores**: every task comes to its end, and makes its call. -/
theorem Faultless.background (h : world.Faultless) (hheld : world.held = false)
    (hfresh : ∀ flight ∈ world.inFlight, flight.rest = flight.task.program) :
    world.background.stores =
        (world.inFlight.map (·.task)).foldl (·.worked world.now ·) world.stores ∧
      world.background.inFlight = [] := by
  have hcleared : Faultless { world with inFlight := [] } := ⟨h.backend, h.outages⟩
  have hdone := hcleared.foldl_runOne hfresh
  have hnot : ¬ world.held = true := by
    rw [hheld]
    decide
  simp only [World.background, if_neg hnot]
  generalize world.inFlight.foldl runOne { world with inFlight := [] } = done at hdone ⊢
  refine ⟨hdone.stores_eq, ?_⟩
  -- Nobody is left, so nobody waits until it times out.
  simp only [pass, hdone.inFlight_eq]
  rfl

/-- **The order of the tasks in the background makes no difference, save between enrichments of one
license.** Take a world where nothing goes wrong with calls and no writes are held up, with any
stores and any tasks in the background that have not started, aimed at any records, there or not. If
the tasks are in any other order, in which several enrichments of one license come in the same order
as before, the background does them all and leaves the same stores, at the one time of the world. -/
theorem stores_background_eq (h : world.Faultless) (hheld : world.held = false)
    {flights others : List InFlight}
    (hfresh : ∀ flight ∈ flights, flight.rest = flight.task.program) (hperm : flights.Perm others)
    (horder : ∀ id, (flights.filter (·.task.enriches id)).length ≤ 1 ∨
      flights.filter (·.task.enriches id) = others.filter (·.task.enriches id)) :
    { world with inFlight := flights }.background.stores =
        { world with inFlight := others }.background.stores ∧
      { world with inFlight := flights }.background.inFlight = [] ∧
      { world with inFlight := others }.background.inFlight = [] := by
  have hfresh' : ∀ flight ∈ others, flight.rest = flight.task.program := fun flight hflight ↦
    hfresh flight (hperm.mem_iff.2 hflight)
  have hfirst : Faultless { world with inFlight := flights } := ⟨h.backend, h.outages⟩
  have hsecond : Faultless { world with inFlight := others } := ⟨h.backend, h.outages⟩
  have hkind : ∀ id, (flights.map (·.task)).filter (Task.enriches id) =
      (others.map (·.task)).filter (Task.enriches id) := by
    intro id
    have hperm' : (flights.filter (·.task.enriches id)).Perm
        (others.filter (·.task.enriches id)) := hperm.filter _
    have hsame : flights.filter (·.task.enriches id) = others.filter (·.task.enriches id) :=
      (horder id).elim (eq_of_perm_of_length_le_one hperm') fun heq ↦ heq
    rw [List.filter_map, List.filter_map]
    exact congrArg (List.map (·.task)) hsame
  have hsame : (flights.map (·.task)).foldl (·.worked world.now ·) world.stores =
      (others.map (·.task)).foldl (·.worked world.now ·) world.stores :=
    foldl_eq_of_perm (fun _ _ hkinds stores ↦ stores.worked_comm world.now hkinds)
      (hperm.map (·.task)) hkind world.stores
  have hdone := hfirst.background hheld hfresh
  have hdone' := hsecond.background hheld hfresh'
  exact ⟨hdone.1.trans (hsame.trans hdone'.1.symm), hdone.2, hdone'.2⟩

/-- A license and a key in memory. -/
def oneOfEach : World where
  now := ⟨5⟩
  stores.licenses := .single (License.fresh ⟨0⟩ ⟨1⟩ "K" "standard" "app" .active)
  stores.keys := .added .empty { (default : ApiKey) with id := ⟨2⟩, lookup := "aaaaaaaa" }

/-- A task of each kind for what is there, one for a license that is not, and one that is there
twice. -/
def overlapping : List InFlight :=
  [.expire ⟨1⟩, .enrich ⟨1⟩ (.string "seen"), .noteUse ⟨2⟩, .enrich ⟨3⟩ .null, .expire ⟨1⟩].map
    fun task : Task ↦ ⟨task, 10, 10, task.program, false⟩

/-- The license is expired and has its note, whether the tasks come in one order or the other. -/
theorem stores_background_eq_reversed :
    oneOfEach.Faultless ∧ oneOfEach.held = false ∧
    (∀ flight ∈ overlapping, flight.rest = flight.task.program) ∧
    overlapping.Perm overlapping.reverse ∧
    (∀ id, (overlapping.filter (·.task.enriches id)).length ≤ 1 ∨
      overlapping.filter (·.task.enriches id) =
        overlapping.reverse.filter (·.task.enriches id)) ∧
    ({ oneOfEach with inFlight := overlapping } : World).background.stores.licenses.licenses.map
      (fun license ↦ (license.status, license.metadata)) = [(.expired, some (.string "seen"))] ∧
    { oneOfEach with inFlight := overlapping }.background.stores =
      { oneOfEach with inFlight := overlapping.reverse }.background.stores := by
  have hfaultless : oneOfEach.Faultless := ⟨rfl, rfl⟩
  have hfresh : ∀ flight ∈ overlapping, flight.rest = flight.task.program := by
    intro flight hflight
    obtain ⟨task, -, rfl⟩ := List.mem_map.1 hflight
    rfl
  have hperm : overlapping.Perm overlapping.reverse := (List.reverse_perm _).symm
  have horder : ∀ id, (overlapping.filter (·.task.enriches id)).length ≤ 1 := by
    intro id
    by_cases hfirst : (⟨1⟩ : Uuid) = id
    · cases hfirst
      decide
    · by_cases hother : (⟨3⟩ : Uuid) = id
      · cases hother
        decide
      · simp only [overlapping, List.map_cons, List.map_nil, List.filter_cons, Task.enriches,
          hfirst, hother, decide_false, Bool.false_eq_true, if_false, List.filter_nil]
        decide
  have hsame := stores_background_eq hfaultless rfl hfresh hperm fun id ↦ .inl (horder id)
  exact ⟨hfaultless, rfl, hfresh, hperm, fun id ↦ .inl (horder id),
    by decide +kernel, hsame.1⟩

end World

end Licensing
