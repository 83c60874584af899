import Licensing.License.Store
import Licensing.Proofs.Listing.Order

/-!
# The pages of a listing

What a listing shows is said here without its sort: which licenses pass the filters
(`ListQuery.Passes`), and which of two licenses comes first (`ListQuery.Precedes`), by the value of
one field, a missing one above all others, and by identifier where the values agree. The comparison
of the listing decides exactly that (`ListQuery.order_eq_lt_iff`).

So a set of licenses has one listing, whatever order they are stored in, and every page of every
size is cut out of it (`LicenseStore.list_paginates`). That there is only one rests on identifiers
being different: no two licenses tie, so a selection is strictly sorted
(`pairwise_precedes_select`), and two strictly sorted lists of the same licenses are the same list.
That the pages cover it rests on nothing but where they are cut (`flatMap_pages`).
-/

namespace Licensing

/-! ### The fields in order -/

/-- The kind of values that a field has. -/
abbrev SortField.Value : SortField → Type
  | id => Nat
  | createdAt | updatedAt | expiresAt | issuedAt => Instant
  | customerName | customerEmail | product | kind | status => String

/-- The value of a field, if the license has one. -/
def SortField.value? : (field : SortField) → License → Option field.Value
  | id, license => some license.id.bits.toNat
  | createdAt, license => some license.createdAt
  | updatedAt, license => some license.updatedAt
  | expiresAt, license => license.expiresAt
  | issuedAt, license => license.issuedAt
  | customerName, license => license.customerName
  | customerEmail, license => license.customerEmail
  | product, license => some license.product
  | kind, license => some license.kind
  | status, license => some license.status.name

instance : (field : SortField) → LT field.Value
  | .id => inferInstanceAs (LT Nat)
  | .createdAt | .updatedAt | .expiresAt | .issuedAt => inferInstanceAs (LT Instant)
  | .customerName | .customerEmail | .product | .kind | .status => inferInstanceAs (LT String)

namespace ListQuery

variable {α : Type}

/-- One value ranks below another; a missing one ranks above all others. -/
def Below [LT α] : Option α → Option α → Prop
  | some a, some b => a < b
  | some _, none => True
  | none, _ => False

/-- The comparison is the three-way form of the order. -/
structure Decides [LT α] (cmp : α → α → Ordering) : Prop where
  eq_lt_iff : ∀ {a b : α}, cmp a b = .lt ↔ a < b
  eq_eq_iff : ∀ {a b : α}, cmp a b = .eq ↔ a = b

theorem decides_number : Decides (compare : Nat → Nat → Ordering) :=
  ⟨Nat.compare_eq_lt, Nat.compare_eq_eq⟩

theorem decides_text : Decides (compare : String → String → Ordering) :=
  ⟨compareOfLessAndEq_eq_lt, Std.compare_eq_iff_eq⟩

theorem decides_instant : Decides Instant.compare where
  eq_lt_iff := Std.compare_eq_lt
  eq_eq_iff {a b} := by
    cases a
    cases b
    rw [Instant.mk.injEq]
    exact Std.compare_eq_iff_eq

/-- A comparison that leaves room for missing values decides as much. -/
theorem Decides.optional [LT α] {cmp : α → α → Ordering} (h : Decides cmp) (a b : Option α) :
    (compareOptional cmp a b = .lt ↔ Below a b) ∧ (compareOptional cmp a b = .eq ↔ a = b) := by
  rcases a with - | a <;> rcases b with - | b
  · simp [compareOptional, Below]
  · simp [compareOptional, Below]
  · simp [compareOptional, Below]
  · simp [compareOptional, Below, h.eq_lt_iff, h.eq_eq_iff]

/-- **The comparison by a field decides the order of its values.** -/
theorem compareBy_decides (field : SortField) (a b : License) :
    (compareBy field a b = .lt ↔ Below (field.value? a) (field.value? b)) ∧
      (compareBy field a b = .eq ↔ field.value? a = field.value? b) := by
  cases field with
  | id => exact decides_number.optional (some _) (some _)
  | createdAt | updatedAt => exact decides_instant.optional (some _) (some _)
  | expiresAt | issuedAt => exact decides_instant.optional _ _
  | customerName | customerEmail => exact decides_text.optional _ _
  | product | kind | status => exact decides_text.optional (some _) (some _)

/-! ### What a query asks for -/

/-- The license passes all filters that are given. -/
structure Passes (query : ListQuery) (license : License) : Prop where
  status : ∀ status, query.status = some status → license.status = status
  customerEmail : ∀ email, query.customerEmail = some email → license.customerEmail = some email
  product : ∀ product, query.product = some product → license.product = product
  kind : ∀ kind, query.kind = some kind → license.kind = kind

theorem admits_iff {query : ListQuery} {license : License} :
    query.admits license = true ↔ query.Passes license := by
  simp only [admits, Bool.and_eq_true, Option.all_eq_true, decide_eq_true_eq, and_assoc]
  exact ⟨fun ⟨hstatus, hemail, hproduct, hkind⟩ ↦ ⟨hstatus, hemail, hproduct, hkind⟩,
    fun h ↦ ⟨h.status, h.customerEmail, h.product, h.kind⟩⟩

/-- A value comes before another in a direction. -/
def Leads [LT α] : SortOrder → Option α → Option α → Prop
  | .ascending, a, b => Below a b
  | .descending, a, b => Below b a

/-- Of two licenses the query puts this one first: by its field, in its direction, and by
identifier, in either direction upwards, where the values of the field agree. -/
def Precedes (query : ListQuery) (a b : License) : Prop :=
  Leads query.sortOrder (query.sortBy.value? a) (query.sortBy.value? b) ∨
    query.sortBy.value? a = query.sortBy.value? b ∧ a.id.bits.toNat < b.id.bits.toNat

/-- Turned in a direction, the comparison decides which value comes first. -/
theorem apply_compareBy (direction : SortOrder) (field : SortField) (a b : License) :
    (direction.apply (compareBy field a b) = .lt ↔
        Leads direction (field.value? a) (field.value? b)) ∧
      (direction.apply (compareBy field a b) = .eq ↔ field.value? a = field.value? b) := by
  cases direction with
  | ascending => exact compareBy_decides field a b
  | descending =>
    have hswap : (compareBy field a b).swap = compareBy field b a := Std.OrientedCmp.eq_swap.symm
    show ((compareBy field a b).swap = .lt ↔ _) ∧ ((compareBy field a b).swap = .eq ↔ _)
    rw [hswap, eq_comm (a := field.value? a)]
    exact compareBy_decides field b a

/-- **The comparison of a listing decides which license comes first.** -/
theorem order_eq_lt_iff {query : ListQuery} {a b : License} :
    query.order a b = .lt ↔ query.Precedes a b := by
  obtain ⟨hleads, hagree⟩ := apply_compareBy query.sortOrder query.sortBy a b
  rw [order, Ordering.then_eq_lt, hleads, hagree]
  exact or_congr_right (and_congr_right fun _ ↦ Nat.compare_eq_lt)

/-! ### Pages -/

/-- **A selection is strictly sorted**, as no two licenses tie. -/
theorem pairwise_precedes_select (query : ListQuery) {licenses : List License}
    (hids : (licenses.map (·.id)).Nodup) : (query.select licenses).Pairwise query.Precedes := by
  have hdistinct : (query.select licenses).Pairwise fun a b ↦ a.id ≠ b.id :=
    List.pairwise_map.1 (nodup_ids_select hids)
  refine ((query.pairwise_select licenses).and hdistinct).imp fun {a b} ⟨hle, hne⟩ ↦ ?_
  rw [← order_eq_lt_iff]
  rcases horder : query.order a b with - | - | -
  · rfl
  · exact absurd (query.order_eq_eq horder) hne
  · rw [horder] at hle
    cases hle

/-- The order in which licenses are stored does not show in a selection. -/
theorem select_congr (query : ListQuery) {licenses stored : List License}
    (hids : (licenses.map (·.id)).Nodup) (hperm : stored.Perm licenses) :
    query.select stored = query.select licenses := by
  have hall : (query.select stored).Perm (query.select licenses) :=
    (query.select_perm stored).trans ((hperm.filter _).trans (query.select_perm licenses).symm)
  exact query.eq_of_perm (nodup_ids_select hids) (query.pairwise_select _)
    (query.pairwise_select _) hall

/-- Pages that follow each other are together the beginning of the list. -/
theorem flatMap_pages {α : Type} (items : List α) (limit count : Nat) :
    (List.range count).flatMap (fun k ↦ (items.drop (k * limit)).take limit) =
      items.take (count * limit) := by
  induction count with
  | zero => simp
  | succ count ih =>
    rw [List.range_succ, List.flatMap_append, ih, List.flatMap_singleton, Nat.succ_mul,
      List.take_add]

end ListQuery

/-- **A listing is an exact, strict and stable pagination.** Licenses that share no identifiers have
one listing for each choice of filters, field and direction: it holds each license that passes the
filters once and nothing else, in strict order. Whatever order they are stored in, a page of any
size at any offset is cut out of this listing, and tells its length. The pages from the beginning on
that follow each other are together the whole listing, once there are enough of them. -/
theorem LicenseStore.list_paginates (query : ListQuery) {licenses : List License}
    (hids : (licenses.map (·.id)).Nodup) :
    ∃ listed : List License,
      (∀ license, license ∈ listed ↔ license ∈ licenses ∧ query.Passes license) ∧
      listed.Nodup ∧ listed.Pairwise query.Precedes ∧
      ∀ store : LicenseStore, store.licenses.Perm licenses → ∀ limit,
        (∀ offset, store.list { query with limit, offset } =
          ⟨(listed.drop offset).take limit, listed.length⟩) ∧
        (1 ≤ limit → ∀ count, listed.length / limit < count →
          (List.range count).flatMap (fun k ↦
            (store.list { query with limit, offset := k * limit }).items) = listed) := by
  refine ⟨query.select licenses, fun license ↦ ?_, ?_, query.pairwise_precedes_select hids,
    fun store hperm limit ↦ ?_⟩
  · rw [ListQuery.mem_select, ListQuery.admits_iff]
  · exact (ListQuery.nodup_ids_select hids).of_map
  have hpage : ∀ offset, store.list { query with limit, offset } =
      ⟨((query.select licenses).drop offset).take limit, (query.select licenses).length⟩ := by
    intro offset
    rw [← query.select_congr hids hperm]
    rfl
  refine ⟨hpage, fun hlimit count hcount ↦ ?_⟩
  simp only [hpage]
  rw [ListQuery.flatMap_pages]
  exact List.take_of_length_le (Nat.le_of_lt ((Nat.div_lt_iff_lt_mul hlimit).1 hcount))

/-- A license with an expiry and two without one, out of order. -/
def mixedLicenses : List License :=
  [{ License.fresh ⟨0⟩ ⟨3⟩ "C" "standard" "app" .active with expiresAt := some ⟨7⟩ },
    License.fresh ⟨0⟩ ⟨2⟩ "B" "standard" "app" .active,
    License.fresh ⟨0⟩ ⟨1⟩ "A" "standard" "app" .active]

/-- The license that expires comes after those that do not, if the last to expire come first. -/
theorem LicenseStore.list_paginates_mixed : (mixedLicenses.map (·.id)).Nodup ∧
    ∃ listed : List License, listed.Perm mixedLicenses ∧
      listed.Pairwise (ListQuery.Precedes { sortBy := .expiresAt }) ∧
      ∀ store : LicenseStore, store.licenses.Perm mixedLicenses →
        (List.range 2).flatMap (fun k ↦
          (store.list { sortBy := .expiresAt, limit := 2, offset := k * 2 }).items) = listed := by
  have hids : (mixedLicenses.map (·.id)).Nodup := by decide
  obtain ⟨listed, hmem, hnodup, hsorted, hpages⟩ :=
    list_paginates { sortBy := .expiresAt } hids
  have hperm : listed.Perm mixedLicenses := by
    refine (List.perm_ext_iff_of_nodup hnodup hids.of_map).2 fun license ↦ ?_
    rw [hmem, and_iff_left ⟨nofun, nofun, nofun, nofun⟩]
  have hlength : listed.length / 2 < 2 := by
    rw [hperm.length_eq]
    decide
  exact ⟨hids, listed, hperm, hsorted, fun store hstored ↦
    (hpages store hstored 2).2 (by decide) 2 hlength⟩

end Licensing
