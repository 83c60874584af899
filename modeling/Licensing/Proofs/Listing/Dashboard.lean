import Mathlib.Algebra.Ring.Nat
import Mathlib.Data.List.Induction
import Licensing.Http.View
import Licensing.Proofs.License.Keeping
import Licensing.Proofs.Listing.Pagination

/-!
# The dashboard and the listing

The dashboard counts licenses as it comes across them, and a listing filters and sorts them. What
the two say of the same licenses agrees (`LicenseStore.dashboard_agrees`), in whatever order either
comes across them.

A dashboard is built up license by license. What it says at each point is what there is to say of
the licenses so far (`Dashboard.Summarizes`): each count is the number of licenses under a name, and
of the licenses that expire within the window it knows one that expires first.

* `Summarizes.add` is the step, one more license; `Summarizes.foldl` is the induction.
* What is said of licenses does not depend on their order (`Summarizes.perm`). That is why the
  license that expires first is only described: of several that expire at the same time a dashboard
  names one, and which one does depend on the order.
* The listing comes in through its total (`LicenseStore.total_list`), which for a filter by one
  value is the number of licenses that have it.
-/

namespace Licensing

/-! ### Counts under names -/

namespace Table

variable {κ : Type} [DecidableEq κ]

/-- Putting one number in the place of another. -/
theorem sum_values_modify {t : Table κ Nat} {key : κ} {n : Nat} (h : t.get? key = some n)
    (m : Nat) : (t.modify key fun _ ↦ m).values.sum + n = t.values.sum + m := by
  obtain ⟨entries, hnodup⟩ := t
  unfold get? at h
  unfold values modify
  simp only [List.map_map] at h ⊢
  induction entries with
  | nil => cases h
  | cons entry rest ih =>
    obtain ⟨k, v⟩ := entry
    rw [List.map_cons, List.nodup_cons] at hnodup
    rw [List.lookup_cons] at h
    simp only [List.map_cons, List.sum_cons, Function.comp_apply]
    by_cases hk : k = key
    · subst hk
      -- No later entry has the key, so the rest stays as it is.
      have hrest : rest.map ((·.2) ∘ fun entry : κ × Nat ↦
          (entry.1, if entry.1 = k then m else entry.2)) = rest.map (·.2) := by
        refine List.map_congr_left fun entry hentry ↦ if_neg fun heq ↦ hnodup.1 ?_
        exact List.mem_map.2 ⟨entry, hentry, heq⟩
      rw [beq_self_eq_true] at h
      obtain rfl := Option.some.inj h
      rw [hrest, if_pos rfl]
      omega
    · rw [beq_eq_false_iff_ne.2 (Ne.symm hk)] at h
      have := ih hnodup.2 h
      rw [if_neg hk]
      omega

end Table

namespace Tally

variable {κ : Type} [DecidableEq κ]

/-- The counts are those of the names in the list, and no other name is there. -/
structure Counts (t : Tally κ) (names : List κ) : Prop where
  count_eq : ∀ name, t.count name = names.count name
  sum_eq : t.values.sum = names.length
  contains_iff : ∀ name, t.contains name = true ↔ name ∈ names

theorem counts_empty : Counts (Table.empty : Tally κ) [] :=
  ⟨fun _ ↦ rfl, rfl, fun _ ↦ iff_of_false Bool.false_ne_true List.not_mem_nil⟩

theorem sum_values_add (t : Tally κ) (name : κ) :
    (t.add name).values.sum = t.values.sum + 1 := by
  unfold add
  cases hget : t.get? name with
  | none => rw [Table.values_insert_of_get?_eq_none hget]; simp
  | some n =>
    have hmodify : t.insert name ((some n).getD 0 + 1) = t.modify name fun _ ↦ n + 1 := by
      rw [Table.insert, dif_neg (by rw [hget]; exact Option.some_ne_none n)]
      rfl
    have hsum := Table.sum_values_modify hget (n + 1)
    rw [hmodify]
    omega

/-- One more of a name. -/
theorem Counts.add {t : Tally κ} {names : List κ} (h : Counts t names) (name : κ) :
    Counts (t.add name) (names ++ [name]) where
  count_eq wanted := by
    rw [count_add, h.count_eq, List.count_append, List.count_singleton]
    simp only [beq_iff_eq, eq_comm (a := wanted)]
  sum_eq := by
    rw [sum_values_add, h.sum_eq, List.length_append]
    rfl
  contains_iff wanted := by
    rw [List.mem_append, ← h.contains_iff, List.mem_singleton, Table.contains, Table.contains,
      Tally.add, Table.get?_insert]
    by_cases hname : wanted = name <;> simp [hname]

theorem Counts.perm {t : Tally κ} {names others : List κ} (h : Counts t names)
    (hperm : names.Perm others) : Counts t others where
  count_eq name := (h.count_eq name).trans (hperm.count_eq name)
  sum_eq := h.sum_eq.trans hperm.length_eq
  contains_iff name := (h.contains_iff name).trans hperm.mem_iff

end Tally

/-! ### Licenses that expire soon -/

/-- The license is active and expires within the window, both ends included. -/
def License.ExpiresBetween (license : License) (first last : Instant) : Prop :=
  license.status = .active ∧ ∃ expiry ∈ license.expiresAt, first ≤ expiry ∧ expiry ≤ last

instance (license : License) (first last : Instant) :
    Decidable (license.ExpiresBetween first last) := by
  unfold License.ExpiresBetween
  infer_instance

/-- Of the licenses that expire within the window this is one that expires first; there is none if
none of them does. -/
def License.First (first last : Instant) (licenses : List License) :
    Option NextToExpire → Prop
  | none => ∀ license ∈ licenses, ¬ license.ExpiresBetween first last
  | some next =>
    (∃ license ∈ licenses, license.ExpiresBetween first last ∧
      license.expiresAt = some next.expiresAt ∧ license.key = next.key ∧
      license.product = next.product) ∧
    ∀ license ∈ licenses, license.ExpiresBetween first last →
      ∀ expiry ∈ license.expiresAt, next.expiresAt ≤ expiry

/-- Whoever expires from now on has not expired. -/
theorem License.ExpiresBetween.isExpiredAt_eq_false {license : License} {first last : Instant}
    (h : license.ExpiresBetween first last) : license.isExpiredAt first = false := by
  obtain ⟨-, expiry, hexpiry, hle, -⟩ := h
  refine Bool.eq_false_iff.2 fun hexpired ↦ ?_
  obtain ⟨limit, hlimit, hpast⟩ := (license.isExpiredAt_eq_true_iff first).1 hexpired
  obtain rfl := Option.some.inj (hexpiry.symm.trans hlimit)
  exact Instant.not_lt.2 hle hpast

namespace Dashboard

variable {now horizon : Instant} {license : License}

theorem expiryWithin?_eq_some_iff {expiry : Instant} :
    expiryWithin? now horizon license = some expiry ↔
      license.ExpiresBetween now horizon ∧ license.expiresAt = some expiry := by
  unfold expiryWithin? License.ExpiresBetween
  by_cases hactive : license.status = .active
  · simp only [hactive, if_true, Option.filter_eq_some_iff, Option.mem_def, Bool.and_eq_true,
      decide_eq_true_eq, true_and]
    constructor
    · rintro ⟨hexpiry, hwithin⟩
      exact ⟨⟨expiry, hexpiry, hwithin⟩, hexpiry⟩
    · rintro ⟨⟨other, hother, hwithin⟩, hexpiry⟩
      obtain rfl := Option.some.inj (hother.symm.trans hexpiry)
      exact ⟨hexpiry, hwithin⟩
  · simp [hactive]

theorem expiryWithin?_eq_none_iff :
    expiryWithin? now horizon license = none ↔ ¬ license.ExpiresBetween now horizon := by
  constructor
  · rintro hnone hbetween
    obtain ⟨-, expiry, hexpiry, -⟩ := id hbetween
    cases hnone.symm.trans (expiryWithin?_eq_some_iff.2 ⟨hbetween, hexpiry⟩)
  · intro hbetween
    refine Option.eq_none_iff_forall_ne_some.2 fun expiry hsome ↦ ?_
    exact hbetween (expiryWithin?_eq_some_iff.1 hsome).1

/-- A license that does not expire within the window does not matter. -/
theorem first_append_of_not {licenses : List License} {next : Option NextToExpire}
    (h : License.First now horizon licenses next) (hnot : ¬ license.ExpiresBetween now horizon) :
    License.First now horizon (licenses ++ [license]) next := by
  cases next with
  | none =>
    intro other hother
    rcases List.mem_append.1 hother with hmem | hmem
    · exact h other hmem
    · exact List.mem_singleton.1 hmem ▸ hnot
  | some next =>
    obtain ⟨⟨first, hfirst, htells⟩, hleast⟩ := h
    refine ⟨⟨first, List.mem_append_left _ hfirst, htells⟩, fun other hother hbetween ↦ ?_⟩
    rcases List.mem_append.1 hother with hmem | hmem
    · exact hleast other hmem hbetween
    · exact absurd (List.mem_singleton.1 hmem ▸ hbetween) hnot

/-- Of two licenses that expire within the window the sooner one is kept. -/
theorem first_append_sooner {licenses : List License} {known : Option NextToExpire}
    (h : License.First now horizon licenses known) {expiry : Instant}
    (hbetween : license.ExpiresBetween now horizon) (hexpiry : license.expiresAt = some expiry) :
    License.First now horizon (licenses ++ [license]) (some (sooner known license expiry)) := by
  -- What there is to show if the license at hand expires first, and if another one does.
  have hself : (∀ other ∈ licenses, other.ExpiresBetween now horizon →
      ∀ time ∈ other.expiresAt, expiry ≤ time) →
      License.First now horizon (licenses ++ [license])
        (some ⟨license.key, expiry, license.product⟩) := by
    intro hleast
    refine ⟨⟨license, by simp, hbetween, hexpiry, rfl, rfl⟩, ?_⟩
    intro other hother hother' time htime
    rcases List.mem_append.1 hother with hmem | hmem
    · exact hleast other hmem hother' time htime
    · rw [List.mem_singleton.1 hmem, hexpiry, Option.mem_some_iff] at htime
      exact htime ▸ Int.le_refl _
  cases known with
  | none => exact hself fun other hother hother' ↦ absurd hother' (h other hother)
  | some next =>
    obtain ⟨⟨first, hfirst, htells⟩, hleast⟩ := h
    by_cases hsooner : expiry < next.expiresAt
    · simp only [sooner, if_pos hsooner]
      refine hself fun other hother hother' time htime ↦ ?_
      exact Int.le_trans (Int.le_of_lt hsooner) (hleast other hother hother' time htime)
    · simp only [sooner, if_neg hsooner]
      refine ⟨⟨first, List.mem_append_left _ hfirst, htells⟩, ?_⟩
      intro other hother hother' time htime
      rcases List.mem_append.1 hother with hmem | hmem
      · exact hleast other hmem hother' time htime
      · rw [List.mem_singleton.1 hmem, hexpiry, Option.mem_some_iff] at htime
        exact htime ▸ Instant.not_lt.1 hsooner

/-! ### License by license -/

/-- The summary says what there is to say of the licenses. -/
structure Summarizes (now horizon : Instant) (licenses : List License) (d : Dashboard) : Prop where
  total : d.total = licenses.length
  statusCounts : d.statusCounts.Counts (licenses.map (·.status))
  kindCounts : d.kindCounts.Counts (licenses.map (·.kind))
  productCounts : d.productCounts.Counts (licenses.map (·.product))
  expiringSoon : d.expiringSoon = (licenses.filter (·.ExpiresBetween now horizon)).length
  nextToExpire : License.First now horizon licenses d.nextToExpire

theorem summarizes_empty (now horizon : Instant) : Summarizes now horizon [] empty where
  total := rfl
  statusCounts := Tally.counts_empty
  kindCounts := Tally.counts_empty
  productCounts := Tally.counts_empty
  expiringSoon := rfl
  nextToExpire := List.forall_mem_nil _

/-- **One more license.** -/
theorem Summarizes.add {licenses : List License} {d : Dashboard}
    (h : Summarizes now horizon licenses d) (license : License) :
    Summarizes now horizon (licenses ++ [license]) (d.add now horizon license) := by
  have htotal : d.total + 1 = (licenses ++ [license]).length := by
    rw [h.total, List.length_append]
    rfl
  have hstatus := h.statusCounts.add license.status
  have hkind := h.kindCounts.add license.kind
  have hproduct := h.productCounts.add license.product
  rw [← List.map_singleton, ← List.map_append] at hstatus hkind hproduct
  unfold Dashboard.add
  cases hwithin : expiryWithin? now horizon license with
  | none =>
    have hnot := expiryWithin?_eq_none_iff.1 hwithin
    refine ⟨htotal, hstatus, hkind, hproduct, ?_, first_append_of_not h.nextToExpire hnot⟩
    show d.expiringSoon = _
    rw [h.expiringSoon, List.filter_append, List.filter_cons_of_neg (by simpa using hnot),
      List.filter_nil, List.append_nil]
  | some expiry =>
    obtain ⟨hbetween, hexpiry⟩ := expiryWithin?_eq_some_iff.1 hwithin
    refine ⟨htotal, hstatus, hkind, hproduct, ?_,
      first_append_sooner h.nextToExpire hbetween hexpiry⟩
    show d.expiringSoon + 1 = _
    rw [h.expiringSoon, List.filter_append, List.filter_cons_of_pos (by simpa using hbetween),
      List.length_append]
    rfl

/-- **The summary of licenses says what there is to say of them**, whatever comes before. -/
theorem Summarizes.foldl {licenses : List License} {d : Dashboard}
    (h : Summarizes now horizon licenses d) (more : List License) :
    Summarizes now horizon (licenses ++ more) (more.foldl (Dashboard.add now horizon) d) := by
  induction more generalizing licenses d with
  | nil => rwa [List.append_nil]
  | cons license more ih =>
    have hrest := ih (h.add license)
    rwa [List.append_assoc] at hrest

theorem summarizes_ofLicenses (now : Instant) (window : Int) (licenses : List License) :
    Summarizes now (now.addSeconds window) licenses (ofLicenses now window licenses) :=
  (summarizes_empty now _).foldl licenses

/-- The order of the licenses does not matter to what is said of them. -/
theorem Summarizes.perm {licenses others : List License} {d : Dashboard}
    (h : Summarizes now horizon licenses d) (hperm : licenses.Perm others) :
    Summarizes now horizon others d where
  total := h.total.trans hperm.length_eq
  statusCounts := h.statusCounts.perm (hperm.map _)
  kindCounts := h.kindCounts.perm (hperm.map _)
  productCounts := h.productCounts.perm (hperm.map _)
  expiringSoon := h.expiringSoon.trans (hperm.filter _).length_eq
  nextToExpire := by
    have hnext := h.nextToExpire
    cases hknown : d.nextToExpire with
    | none =>
      rw [hknown] at hnext
      exact fun license hmem ↦ hnext license (hperm.mem_iff.2 hmem)
    | some next =>
      rw [hknown] at hnext
      obtain ⟨⟨license, hmem, htells⟩, hleast⟩ := hnext
      exact ⟨⟨license, hperm.mem_iff.1 hmem, htells⟩,
        fun other hother ↦ hleast other (hperm.mem_iff.2 hother)⟩

/-- A license expires first exactly if some license expires within the window. -/
theorem Summarizes.isSome_nextToExpire_iff {licenses : List License} {d : Dashboard}
    (h : Summarizes now horizon licenses d) :
    d.nextToExpire.isSome = true ↔ 0 < d.expiringSoon := by
  rw [h.expiringSoon, List.length_pos_iff_exists_mem]
  have hnext := h.nextToExpire
  cases hknown : d.nextToExpire with
  | none =>
    rw [hknown] at hnext
    refine iff_of_false nofun ?_
    rintro ⟨license, hmem⟩
    obtain ⟨hmem, hbetween⟩ := List.mem_filter.1 hmem
    exact hnext license hmem (of_decide_eq_true hbetween)
  | some next =>
    rw [hknown] at hnext
    obtain ⟨⟨license, hmem, hbetween, -⟩, -⟩ := hnext
    exact iff_of_true rfl ⟨license, List.mem_filter.2 ⟨hmem, decide_eq_true hbetween⟩⟩

end Dashboard

/-! ### Counts that are shown -/

namespace Json

/-- The value under a name is that of the one pair of that name. -/
theorem Fields.get?_ofPairs {pairs : List (String × Json)} (h : (pairs.map (·.1)).Nodup)
    (name : String) : (Fields.ofPairs pairs).get? name = pairs.lookup name := by
  induction pairs using List.reverseRecOn with
  | nil => rfl
  | append_singleton pairs pair ih =>
    obtain ⟨key, value⟩ := pair
    rw [List.map_append, List.nodup_append] at h
    have hinsert : ofPairs (pairs ++ [(key, value)]) = (ofPairs pairs).insert key value := by
      rw [ofPairs, List.foldl_append]
      rfl
    rw [hinsert, get?_insert, ih h.1, List.lookup_append]
    by_cases hname : key = name
    · subst hname
      have habsent : pairs.lookup key = none :=
        (Table.lookup_eq_none_iff_key pairs key).2 fun hmem ↦ h.2.2 _ hmem _ (by simp) rfl
      simp [habsent]
    · simp [hname, List.lookup_cons, beq_eq_false_iff_ne.2 (Ne.symm hname)]

/-- The count that an object shows under a name within a group; zero where it shows none. -/
def shownCount (value : Json) (group name : String) : Int :=
  match (value.get? group).bind (·.get? name) with
  | some (int n) => n
  | _ => 0

end Json

/-- Under each name stands its count. -/
theorem Tally.get?_toJson (t : Tally String) (name : String) :
    (t.toJson id).get? name = (t.get? name).map fun n ↦ .int n := by
  have hkeys : (t.entries.map fun (key, n) ↦ (id key, Json.int n)).map (·.1) =
      t.entries.map (·.1) := by
    simp [List.map_map, Function.comp_def]
  show Json.Fields.get? (Json.Fields.ofPairs _) name = _
  rw [Json.Fields.get?_ofPairs (by rw [hkeys]; exact t.keys_nodup), Table.get?]
  clear hkeys
  induction t.entries with
  | nil => rfl
  | cons entry rest ih =>
    obtain ⟨key, n⟩ := entry
    rw [List.map_cons, List.lookup_cons, List.lookup_cons, ih, id]
    cases name == key <;> rfl

/-- **The response shows the counts of the summary**, of a status also where there is none. -/
theorem Dashboard.shownCount_view (d : Dashboard) :
    (∀ status : Status, (Http.View.dashboard d).shownCount "statusCounts" status.name =
      d.statusCounts.count status) ∧
    (∀ kind, (Http.View.dashboard d).shownCount "typeCounts" kind = d.kindCounts.count kind) ∧
    ∀ product, (Http.View.dashboard d).shownCount "productCounts" product =
      d.productCounts.count product := by
  have htally : ∀ (t : Tally String) (name : String),
      (match (t.toJson id).get? name with
        | some (.int n) => n
        | _ => 0) = (t.count name : Int) := by
    intro t name
    rw [Tally.get?_toJson, Tally.count]
    cases t.get? name <;> rfl
  refine ⟨fun status ↦ ?_, fun kind ↦ htally d.kindCounts kind, fun product ↦ ?_⟩
  · cases status <;> rfl
  · exact htally d.productCounts product

/-! ### Agreement -/

/-- The query without its filters. -/
def ListQuery.unfiltered (query : ListQuery) : ListQuery :=
  { query with status := none, customerEmail := none, product := none, kind := none }

/-- A listing that is filtered by one value tells how many licenses have it. -/
theorem LicenseStore.total_list {κ : Type} [DecidableEq κ] (store : LicenseStore)
    (part : License → κ) {query : ListQuery} {value : κ}
    (h : ∀ license, query.admits license = decide (part license = value)) :
    (store.list query).total = (store.licenses.map part).count value := by
  show (query.select store.licenses).length = _
  rw [(query.select_perm store.licenses).length_eq, List.count_eq_countP, List.countP_map,
    List.countP_eq_length_filter]
  exact congrArg List.length (List.filter_congr fun license _ ↦ h license)

/-- The dashboard says of the licenses what the listing says of them. -/
structure Dashboard.Agrees (d : Dashboard) (store : LicenseStore) (now horizon : Instant) :
    Prop where
  total : d.total = store.licenses.length
  /-- Each count is the total of the listing that is filtered by the one value. -/
  status : ∀ (query : ListQuery) status,
    d.statusCounts.count status = (store.list { query.unfiltered with status := some status }).total
  kind : ∀ (query : ListQuery) kind,
    d.kindCounts.count kind = (store.list { query.unfiltered with kind := some kind }).total
  product : ∀ (query : ListQuery) product,
    d.productCounts.count product =
      (store.list { query.unfiltered with product := some product }).total
  sums : d.statusCounts.values.sum = d.total ∧ d.kindCounts.values.sum = d.total ∧
    d.productCounts.values.sum = d.total
  /-- These are the counts that the response shows. -/
  shown :
    (∀ status : Status, (Http.View.dashboard d).shownCount "statusCounts" status.name =
      d.statusCounts.count status) ∧
    (∀ kind, (Http.View.dashboard d).shownCount "typeCounts" kind = d.kindCounts.count kind) ∧
    ∀ product, (Http.View.dashboard d).shownCount "productCounts" product =
      d.productCounts.count product
  expiringSoon : d.expiringSoon = (store.licenses.filter (·.ExpiresBetween now horizon)).length
  current : ∀ license ∈ store.licenses, license.ExpiresBetween now horizon →
    license.isExpiredAt now = false
  next_iff : d.nextToExpire.isSome = true ↔ 0 < d.expiringSoon
  next : License.First now horizon store.licenses d.nextToExpire

/-- **The dashboard agrees with the listing.** Let two stores hold the same licenses, in whatever
order. The dashboard of the one counts all licenses of the other, and under each status, type and
product as many as a listing there finds that is filtered by it alone, whatever page is asked for
and in whatever order; the counts of each group add up to the number of all. Expiring soon are the
active licenses whose expiry lies from now to 30 days ahead, both included. None of them has expired
now. If there are any, and only then, the dashboard names one of them that expires first. -/
theorem LicenseStore.dashboard_agrees (now : Instant) {visited store : LicenseStore}
    (h : visited.licenses.Perm store.licenses) :
    (visited.dashboard now (License.expiringSoonDays * 86400)).Agrees store now
      (now.addSeconds (30 * 86400)) := by
  have hsummary : Dashboard.Summarizes now (now.addSeconds (30 * 86400)) store.licenses
      (visited.dashboard now (License.expiringSoonDays * 86400)) :=
    (Dashboard.summarizes_ofLicenses now _ visited.licenses).perm h
  constructor
  · exact hsummary.total
  · intro query status
    rw [hsummary.statusCounts.count_eq, store.total_list (·.status)]
    simp [ListQuery.admits, ListQuery.unfiltered]
  · intro query kind
    rw [hsummary.kindCounts.count_eq, store.total_list (·.kind)]
    simp [ListQuery.admits, ListQuery.unfiltered]
  · intro query product
    rw [hsummary.productCounts.count_eq, store.total_list (·.product)]
    simp [ListQuery.admits, ListQuery.unfiltered]
  · rw [hsummary.statusCounts.sum_eq, hsummary.kindCounts.sum_eq, hsummary.productCounts.sum_eq,
      hsummary.total]
    simp only [List.length_map, and_self]
  · exact Dashboard.shownCount_view _
  · exact hsummary.expiringSoon
  · exact fun _ _ hbetween ↦ hbetween.isExpiredAt_eq_false
  · exact hsummary.isSome_nextToExpire_iff
  · exact hsummary.nextToExpire

/-- Of three licenses, whichever is stored first, the one with an expiry expires soon. -/
theorem LicenseStore.dashboard_agrees_mixed :
    let store := mixedLicenses.foldl added empty
    let visited := mixedLicenses.reverse.foldl added empty
    let d := visited.dashboard ⟨0⟩ (License.expiringSoonDays * 86400)
    visited.licenses.Perm store.licenses ∧
      d.Agrees store ⟨0⟩ (Instant.addSeconds ⟨0⟩ (30 * 86400)) ∧
      d.expiringSoon = 1 ∧ d.nextToExpire = some ⟨"C", ⟨7⟩, "app"⟩ := by
  intro store visited d
  have hstored : store.licenses = mixedLicenses := rfl
  have hvisited : visited.licenses = mixedLicenses.reverse := rfl
  have hperm : visited.licenses.Perm store.licenses := by
    rw [hstored, hvisited]
    exact List.reverse_perm _
  exact ⟨hperm, dashboard_agrees ⟨0⟩ hperm, by decide +kernel, by decide +kernel⟩

end Licensing
