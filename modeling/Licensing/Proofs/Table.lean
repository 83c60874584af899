import Mathlib.Data.List.Nodup
import Licensing.Table

/-!
# Tables as lists of values

A table can be read by key (`Table.get?`) or as a list (`Table.values`). The two readings agree
because keys do not repeat: `Table.mem_entries_iff` reads an entry off its key and
`Table.mem_values_iff` says that the values are exactly what the keys lead to. With them a fact
about every stored value is a fact about every key, which is the form that `Table.get?_modify` and
`Table.get?_insert` need.

Where each value knows its own key, a change of one value is a map over the list of values
(`Table.values_modify_of_key`). Where each value also has a name, a second table can lead from the
names to the keys (`Table.Indexes`).
-/

namespace Licensing.Table

variable {κ α : Type}

/-- Tables are equal when their entries are. -/
theorem eq_of_entries {t u : Table κ α} (h : t.entries = u.entries) : t = u := by
  cases t
  cases u
  cases h
  rfl

variable [DecidableEq κ]

/-! ### Values and keys -/

theorem lookup_eq_some_iff {entries : List (κ × α)} (hnodup : (entries.map (·.1)).Nodup) {key : κ}
    {value : α} : entries.lookup key = some value ↔ (key, value) ∈ entries := by
  induction entries with
  | nil => simp
  | cons entry rest ih =>
    obtain ⟨k, v⟩ := entry
    rw [List.map_cons, List.nodup_cons] at hnodup
    by_cases hk : key = k
    · subst hk
      have habsent : (key, value) ∉ rest := fun hmem ↦
        hnodup.1 (List.mem_map.2 ⟨(key, value), hmem, rfl⟩)
      simp [habsent, eq_comm]
    · rw [List.lookup_cons, beq_eq_false_iff_ne.2 hk]
      simp [hk, ih hnodup.2]

/-- **An entry is read off its key.** -/
theorem mem_entries_iff (t : Table κ α) {key : κ} {value : α} :
    (key, value) ∈ t.entries ↔ t.get? key = some value :=
  (lookup_eq_some_iff t.keys_nodup).symm

/-- **The values are exactly what the keys lead to.** -/
theorem mem_values_iff (t : Table κ α) {value : α} :
    value ∈ t.values ↔ ∃ key, t.get? key = some value := by
  simp only [values, List.mem_map, Prod.exists, exists_eq_right, mem_entries_iff]

/-- The order of the entries does not show to whoever reads by key. -/
theorem get?_eq_of_perm {t u : Table κ α} (h : t.entries.Perm u.entries) (key : κ) :
    t.get? key = u.get? key :=
  Option.ext fun value ↦ by
    rw [← mem_entries_iff, ← mem_entries_iff, h.mem_iff]

/-! ### Changing one value -/

/-- Changing the value of a key that is not there changes nothing. -/
theorem modify_of_contains_eq_false {t : Table κ α} {key : κ} (h : t.contains key = false)
    (f : α → α) : t.modify key f = t := by
  have hnone : t.get? key = none := by simpa [contains] using h
  have habsent : key ∉ t.entries.map (·.1) := (lookup_eq_none_iff_key t.entries key).1 hnone
  have hsame : ∀ entry ∈ t.entries,
      (entry.1, if entry.1 = key then f entry.2 else entry.2) = entry := by
    intro entry hentry
    have hne : entry.1 ≠ key := fun heq ↦ habsent (heq ▸ List.mem_map_of_mem hentry)
    simp [hne]
  exact eq_of_entries ((List.map_congr_left hsame).trans (List.map_id _))

/-- Changes of two values can be made in either order, and so can changes of one value that get
along with each other. -/
theorem modify_comm (t : Table κ α) {j k : κ} {f g : α → α}
    (h : j = k → ∀ value, g (f value) = f (g value)) :
    (t.modify j f).modify k g = (t.modify k g).modify j f := by
  refine eq_of_entries ?_
  simp only [modify, List.map_map]
  refine List.map_congr_left fun entry _ ↦ Prod.ext rfl ?_
  by_cases hj : j = entry.1
  · by_cases hk : k = entry.1
    · obtain rfl : j = k := hj.trans hk.symm
      simpa [← hj] using h rfl entry.2
    · simp [← hj, show ¬ j = k from fun heq ↦ hk (heq ▸ hj)]
  · simp [Ne.symm hj]

/-- Where each value knows its own key, changing one value is a map over all of them. -/
theorem values_modify_of_key {t : Table κ α} {keyOf : α → κ}
    (hkey : ∀ {k v}, t.get? k = some v → keyOf v = k) (key : κ) (f : α → α) :
    (t.modify key f).values = t.values.map fun v ↦ if keyOf v = key then f v else v := by
  unfold values modify
  rw [List.map_map, List.map_map]
  refine List.map_congr_left fun entry hentry ↦ ?_
  have hown : keyOf entry.2 = entry.1 := hkey ((mem_entries_iff t).1 hentry)
  simp [hown]

/-! ### Indexes -/

variable {ι : Type} [DecidableEq ι]

/-- A second table leads from the names of values to the keys under which they are stored, and from
no other name anywhere. -/
structure Indexes (names : Table ι κ) (t : Table κ α) (keyOf : α → κ) (nameOf : α → ι) :
    Prop where
  keyOf_eq : ∀ {key value}, t.get? key = some value → keyOf value = key
  get?_iff : ∀ {name key}, names.get? name = some key ↔
    ∃ value, t.get? key = some value ∧ nameOf value = name

namespace Indexes

variable {names : Table ι κ} {t : Table κ α} {keyOf : α → κ} {nameOf : α → ι}

theorem empty : Indexes Table.empty Table.empty keyOf nameOf where
  keyOf_eq h := by simp at h
  get?_iff := by simp

/-- A change that keeps key and name keeps the index. -/
theorem modify (h : Indexes names t keyOf nameOf) (key : κ) {f : α → α}
    (hkey : ∀ value, keyOf (f value) = keyOf value)
    (hname : ∀ value, nameOf (f value) = nameOf value) :
    Indexes names (t.modify key f) keyOf nameOf where
  keyOf_eq {wanted value} hget := by
    rw [get?_modify] at hget
    split at hget
    · obtain ⟨stored, hstored, rfl⟩ := Option.map_eq_some_iff.1 hget
      rw [hkey, h.keyOf_eq hstored]
    · exact h.keyOf_eq hget
  get?_iff {name wanted} := by
    rw [get?_modify]
    refine h.get?_iff.trans ?_
    split
    · constructor
      · rintro ⟨value, hget, rfl⟩
        exact ⟨f value, by rw [hget]; rfl, hname value⟩
      · rintro ⟨value, hget, rfl⟩
        obtain ⟨stored, hstored, rfl⟩ := Option.map_eq_some_iff.1 hget
        exact ⟨stored, hstored, (hname stored).symm⟩
    · exact Iff.rfl

/-- A value with a new key and a new name keeps the index. -/
theorem insert (h : Indexes names t keyOf nameOf) {value : α}
    (hkey : t.get? (keyOf value) = none) (hname : names.get? (nameOf value) = none) :
    Indexes (names.insert (nameOf value) (keyOf value)) (t.insert (keyOf value) value) keyOf
      nameOf where
  keyOf_eq {wanted found} hget := by
    rw [get?_insert] at hget
    split at hget
    · next heq => rw [← Option.some.inj hget, heq]
    · exact h.keyOf_eq hget
  get?_iff {name wanted} := by
    simp only [get?_insert]
    by_cases hn : name = nameOf value
    · subst hn
      -- Nobody else has the new name, or the index would lead there.
      have hother : ∀ found, t.get? wanted = some found → nameOf found ≠ nameOf value := by
        intro found hfound heq
        have hindex := h.get?_iff.2 ⟨found, hfound, heq⟩
        rw [hname] at hindex
        cases hindex
      by_cases hw : wanted = keyOf value
      · subst hw
        simp
      · simp only [if_true, Option.some.injEq, if_neg hw]
        refine iff_of_false (Ne.symm hw) ?_
        rintro ⟨found, hfound, heq⟩
        exact hother found hfound heq
    · rw [if_neg hn]
      refine h.get?_iff.trans ?_
      by_cases hw : wanted = keyOf value
      · subst hw
        simp [hkey, Ne.symm hn]
      · simp [hw]

/-- Whoever is stored is stored under its own key. -/
theorem mem_values_iff (h : Indexes names t keyOf nameOf) {value : α} :
    value ∈ t.values ↔ t.get? (keyOf value) = some value := by
  refine t.mem_values_iff.trans ⟨?_, fun hget ↦ ⟨_, hget⟩⟩
  rintro ⟨key, hget⟩
  rw [h.keyOf_eq hget]
  exact hget

/-- No two values are stored under one key. -/
theorem nodup_keyOf (h : Indexes names t keyOf nameOf) : (t.values.map keyOf).Nodup := by
  have hkeys : t.values.map keyOf = t.entries.map (·.1) := by
    rw [values, List.map_map]
    exact List.map_congr_left fun entry hentry ↦ h.keyOf_eq (t.mem_entries_iff.1 hentry)
  rw [hkeys]
  exact t.keys_nodup

/-- No two values that are stored share a name. -/
theorem eq_of_nameOf_eq (h : Indexes names t keyOf nameOf) {a b : α} (ha : a ∈ t.values)
    (hb : b ∈ t.values) (hname : nameOf a = nameOf b) : a = b := by
  have hastored := h.mem_values_iff.1 ha
  have hbstored := h.mem_values_iff.1 hb
  have hakey : names.get? (nameOf a) = some (keyOf a) := h.get?_iff.2 ⟨a, hastored, rfl⟩
  have hbkey : names.get? (nameOf a) = some (keyOf b) := h.get?_iff.2 ⟨b, hbstored, hname.symm⟩
  have hkeys : keyOf a = keyOf b := Option.some.inj (hakey.symm.trans hbkey)
  rw [← hkeys, hastored] at hbstored
  exact Option.some.inj hbstored

theorem nodup_nameOf (h : Indexes names t keyOf nameOf) : (t.values.map nameOf).Nodup := by
  have hvalues : t.values.Nodup := List.Nodup.of_map keyOf h.nodup_keyOf
  exact hvalues.map_on fun a ha b hb ↦ h.eq_of_nameOf_eq ha hb

/-- **The index leads to whoever is stored and has the name.** -/
theorem bind_get?_eq_some_iff (h : Indexes names t keyOf nameOf) {name : ι} {value : α} :
    (names.get? name).bind t.get? = some value ↔ value ∈ t.values ∧ nameOf value = name := by
  rw [h.mem_values_iff, Option.bind_eq_some_iff]
  constructor
  · rintro ⟨key, hindex, hget⟩
    obtain ⟨stored, hstored, hname⟩ := h.get?_iff.1 hindex
    obtain rfl : stored = value := Option.some.inj (hstored.symm.trans hget)
    rw [h.keyOf_eq hget]
    exact ⟨hget, hname⟩
  · rintro ⟨hget, hname⟩
    exact ⟨keyOf value, h.get?_iff.2 ⟨value, hget, hname⟩, hget⟩

end Indexes

end Licensing.Table
