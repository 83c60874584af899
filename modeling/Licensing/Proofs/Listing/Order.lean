import Mathlib.Data.List.Nodup
import Licensing.License.Listing
import Licensing.Proofs.Time.Order

/-!
# The order of listings

Every query puts licenses in a total order (`ListQuery.order` is a `Std.TransCmp`), in which only
licenses of one identifier tie (`ListQuery.order_eq_eq`). So a selection is sorted
(`pairwise_select`), holds exactly the licenses that pass the filters (`mem_select`), and commutes
with leaving licenses out (`select_filter`): taking some licenses away closes the ranks and moves
nothing else. Licenses are told apart by their identifiers throughout, which is why the lists here
are assumed to repeat none.
-/

namespace Licensing

/-! ### Comparing fields -/

instance : Std.TransCmp Uuid.compare :=
  inferInstanceAs (Std.TransCmp (compareOn fun id : Uuid ↦ id.bits.toNat))

theorem Uuid.compare_eq_eq {a b : Uuid} (h : Uuid.compare a b = .eq) : a = b := by
  have hbits : a.bits.toNat = b.bits.toNat := Nat.compare_eq_eq.1 h
  cases a
  cases b
  exact congrArg Uuid.mk (BitVec.eq_of_toNat_eq hbits)

namespace ListQuery

/-- A missing value ranks above all others, and the others keep their order. -/
instance {α : Type} {cmp : α → α → Ordering} [Std.TransCmp cmp] :
    Std.TransCmp (compareOptional cmp) where
  eq_swap {a b} := by
    rcases a with - | a <;> rcases b with - | b
    · rfl
    · rfl
    · rfl
    · exact @Std.OrientedCmp.eq_swap α cmp _ a b
  isLE_trans {a b c} hab hbc :=
    match a, b, c, hab, hbc with
    | none, none, none, _, _ => rfl
    | some _, _, none, _, _ => rfl
    | some a, some b, some c, hab, hbc => @Std.TransCmp.isLE_trans α cmp _ a b c hab hbc
    | none, some _, _, hab, _ => nomatch hab
    | _, none, some _, _, hbc => nomatch hbc

/-- A comparison of values read off two licenses. -/
theorem transCmp_on {α β : Type} (f : α → β) (cmp : β → β → Ordering) [Std.TransCmp cmp] :
    Std.TransCmp fun a b ↦ cmp (f a) (f b) where
  eq_swap {a b} := @Std.OrientedCmp.eq_swap β cmp _ (f a) (f b)
  isLE_trans {a b c} := @Std.TransCmp.isLE_trans β cmp _ (f a) (f b) (f c)

instance (field : SortField) : Std.TransCmp (compareBy field) := by
  cases field with
  | id => exact transCmp_on License.id Uuid.compare
  | createdAt => exact transCmp_on License.createdAt Instant.compare
  | updatedAt => exact transCmp_on License.updatedAt Instant.compare
  | expiresAt => exact transCmp_on License.expiresAt (compareOptional Instant.compare)
  | issuedAt => exact transCmp_on License.issuedAt (compareOptional Instant.compare)
  | customerName => exact transCmp_on License.customerName (compareOptional Ord.compare)
  | customerEmail => exact transCmp_on License.customerEmail (compareOptional Ord.compare)
  | product => exact transCmp_on License.product Ord.compare
  | kind => exact transCmp_on License.kind Ord.compare
  | status => exact transCmp_on (fun license : License ↦ license.status.name) Ord.compare

/-- Turning a comparison around keeps it an order. -/
theorem transCmp_apply {α : Type} (direction : SortOrder) (cmp : α → α → Ordering)
    [Std.TransCmp cmp] : Std.TransCmp fun a b ↦ direction.apply (cmp a b) := by
  cases direction with
  | ascending => exact ‹Std.TransCmp cmp›
  | descending =>
    have hflip : (fun a b ↦ SortOrder.descending.apply (cmp a b)) = fun a b ↦ cmp b a := by
      funext a b
      exact (@Std.OrientedCmp.eq_swap α cmp _ b a).symm
    rw [hflip]
    infer_instance

instance (query : ListQuery) : Std.TransCmp query.order := by
  have hfield := transCmp_apply query.sortOrder (compareBy query.sortBy)
  have hid := transCmp_on License.id Uuid.compare
  exact inferInstanceAs (Std.TransCmp (compareLex
    (fun a b ↦ query.sortOrder.apply (compareBy query.sortBy a b))
    (fun a b : License ↦ Uuid.compare a.id b.id)))

/-- Only licenses of one identifier tie. -/
theorem order_eq_eq (query : ListQuery) {a b : License} (h : query.order a b = .eq) :
    a.id = b.id := by
  unfold order at h
  exact Uuid.compare_eq_eq (Ordering.then_eq_eq.1 h).2

/-- Licenses each of which ranks no later than the other have one identifier. -/
theorem id_eq_of_order (query : ListQuery) {a b : License} (hab : (query.order a b).isLE = true)
    (hba : (query.order b a).isLE = true) : a.id = b.id :=
  query.order_eq_eq (Std.OrientedCmp.isLE_antisymm hab hba)

/-! ### Selections -/

theorem select_perm (query : ListQuery) (licenses : List License) :
    (query.select licenses).Perm (licenses.filter query.admits) :=
  List.mergeSort_perm _ _

theorem mem_select {query : ListQuery} {licenses : List License} {license : License} :
    license ∈ query.select licenses ↔ license ∈ licenses ∧ query.admits license = true := by
  rw [(query.select_perm licenses).mem_iff, List.mem_filter]

/-- **A selection is sorted.** -/
theorem pairwise_select (query : ListQuery) (licenses : List License) :
    (query.select licenses).Pairwise fun a b ↦ (query.order a b).isLE = true := by
  refine List.pairwise_mergeSort (fun a b c ↦ Std.TransCmp.isLE_trans) (fun a b ↦ ?_) _
  have hswap : query.order a b = (query.order b a).swap := Std.OrientedCmp.eq_swap
  rw [hswap]
  cases query.order b a <;> rfl

theorem mem_of_mem_page {query : ListQuery} {licenses : List License} {license : License}
    (h : license ∈ (query.page licenses).items) :
    license ∈ licenses ∧ query.admits license = true :=
  mem_select.1 (List.mem_of_mem_drop (List.mem_of_mem_take h))

theorem admits_activeByExpiry (limit offset : Nat) :
    (activeByExpiry limit offset).admits = fun license ↦ decide (license.status = .active) := by
  funext license
  simp [activeByExpiry, admits]

theorem nodup_ids_select {query : ListQuery} {licenses : List License}
    (hids : (licenses.map (·.id)).Nodup) : ((query.select licenses).map (·.id)).Nodup :=
  ((query.select_perm licenses).map (·.id)).nodup_iff.2 (hids.sublist (List.filter_sublist.map _))

/-- Two sorted lists of the same licenses are the same list, as no two tie. -/
theorem eq_of_perm (query : ListQuery) {first second : List License}
    (hids : (second.map (·.id)).Nodup)
    (hfirst : first.Pairwise fun a b ↦ (query.order a b).isLE = true)
    (hsecond : second.Pairwise fun a b ↦ (query.order a b).isLE = true)
    (hperm : first.Perm second) : first = second := by
  refine List.Perm.eq_of_pairwise (fun a b ha hb hab hba ↦ ?_) hfirst hsecond hperm
  exact List.inj_on_of_nodup_map hids (hperm.subset ha) hb (query.id_eq_of_order hab hba)

/-- **Leaving licenses out of a listing closes the ranks** and moves nothing else. -/
theorem select_filter (query : ListQuery) {licenses : List License}
    (hids : (licenses.map (·.id)).Nodup) (keep : License → Bool) :
    query.select (licenses.filter keep) = (query.select licenses).filter keep := by
  have hperm : (query.select (licenses.filter keep)).Perm
      ((query.select licenses).filter keep) := by
    refine (query.select_perm _).trans (List.Perm.trans ?_
      ((query.select_perm licenses).filter keep).symm)
    rw [List.filter_filter, List.filter_filter]
    simp only [Bool.and_comm, List.Perm.refl]
  have hkept : (((query.select licenses).filter keep).map (·.id)).Nodup :=
    (nodup_ids_select hids).sublist (List.filter_sublist.map _)
  exact query.eq_of_perm hkept (query.pairwise_select _) ((query.pairwise_select _).filter _) hperm

end ListQuery

end Licensing
