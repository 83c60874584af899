/-!
# Tables

Values under keys, at most one for each key, in the order in which their keys were first inserted.
A table is seen through `get?` and through the list `values`; `get?_insert` and `get?_modify` say
what can be read after a change, `values_insert_of_get?_eq_none` that a new value comes last.

The tables of the service are hashed and promise no order. The one kept here is one of those that
they may have, so that a table is a value; what is proved where it could show allows for every other
(`Stores.Runs`).
-/

namespace Licensing

/-- Values under distinct keys. -/
structure Table (κ α : Type) where
  entries : List (κ × α)
  keys_nodup : (entries.map (·.1)).Nodup

namespace Table

variable {κ α : Type} [DecidableEq κ]

/-- The table without entries. -/
def empty : Table κ α := ⟨[], List.nodup_nil⟩

instance : Inhabited (Table κ α) := ⟨empty⟩

/-- The value under a key. -/
def get? (t : Table κ α) (key : κ) : Option α := t.entries.lookup key

/-- Whether there is a value under the key. -/
def contains (t : Table κ α) (key : κ) : Bool := (t.get? key).isSome

/-- The values, the one whose key came first at the front. -/
def values (t : Table κ α) : List α := t.entries.map (·.2)

/-- The number of values. -/
def size (t : Table κ α) : Nat := t.entries.length

omit [DecidableEq κ] in
private theorem map_fst_map (f : κ → α → α) (entries : List (κ × α)) :
    (entries.map fun (k, v) ↦ (k, f k v)).map (·.1) = entries.map (·.1) := by
  simp [List.map_map, Function.comp_def]

/-- The table with the value under a key, if there is one, changed. -/
def modify (t : Table κ α) (key : κ) (f : α → α) : Table κ α where
  entries := t.entries.map fun (k, v) ↦ (k, if k = key then f v else v)
  keys_nodup := by
    rw [map_fst_map fun k v ↦ if k = key then f v else v]
    exact t.keys_nodup

theorem lookup_eq_none_iff_key (entries : List (κ × α)) (key : κ) :
    entries.lookup key = none ↔ key ∉ entries.map (·.1) := by
  induction entries with
  | nil => simp
  | cons e rest ih =>
    obtain ⟨k, v⟩ := e
    by_cases h : key = k
    · subst h
      simp
    · simp only [List.lookup_cons, beq_eq_false_iff_ne.2 h, ih]
      simp [h]

/-- The table with a value under a key, new or in place of the one there. -/
def insert (t : Table κ α) (key : κ) (value : α) : Table κ α :=
  if h : t.get? key = none then
    { entries := t.entries ++ [(key, value)]
      keys_nodup := by
        have hk := (lookup_eq_none_iff_key t.entries key).1 h
        rw [List.map_append, List.nodup_append]
        refine ⟨t.keys_nodup, by simp, ?_⟩
        intro a ha b hb
        simp only [List.map_cons, List.map_nil, List.mem_singleton] at hb
        subst hb
        exact fun hab ↦ hk (hab ▸ ha) }
  else t.modify key fun _ ↦ value

/-- The table of a list of pairs; of several pairs of one key the last counts. -/
def ofList (pairs : List (κ × α)) : Table κ α :=
  pairs.foldl (fun t (k, v) ↦ t.insert k v) empty

@[simp] theorem get?_empty (key : κ) : (empty : Table κ α).get? key = none := rfl

theorem get?_modify (t : Table κ α) (key wanted : κ) (f : α → α) :
    (t.modify key f).get? wanted =
      if wanted = key then (t.get? wanted).map f else t.get? wanted := by
  unfold get? modify
  simp only
  induction t.entries with
  | nil => simp
  | cons e rest ih =>
    obtain ⟨k, v⟩ := e
    rw [List.map_cons, List.lookup_cons, List.lookup_cons]
    by_cases hk : wanted = k
    · subst hk
      by_cases hw : wanted = key <;> simp [hw]
    · simpa [beq_eq_false_iff_ne.2 hk] using ih

private theorem lookup_concat {entries : List (κ × α)} {key : κ} (value : α) (wanted : κ)
    (h : entries.lookup key = none) :
    (entries ++ [(key, value)]).lookup wanted =
      if wanted = key then some value else entries.lookup wanted := by
  induction entries with
  | nil =>
    by_cases hw : wanted = key
    · subst hw; simp
    · simp [List.lookup_cons, beq_eq_false_iff_ne.2 hw, hw]
  | cons e rest ih =>
    obtain ⟨k, v⟩ := e
    rw [List.lookup_cons] at h
    by_cases hk : key = k
    · subst hk; simp at h
    · simp only [beq_eq_false_iff_ne.2 hk] at h
      rw [List.cons_append, List.lookup_cons, List.lookup_cons]
      by_cases hw : wanted = k
      · subst hw
        simp [show ¬ wanted = key from fun he ↦ hk he.symm]
      · simpa [beq_eq_false_iff_ne.2 hw] using ih h

theorem get?_insert (t : Table κ α) (key wanted : κ) (value : α) :
    (t.insert key value).get? wanted = if wanted = key then some value else t.get? wanted := by
  unfold insert
  split
  · next h => exact lookup_concat value wanted h
  · next h =>
    rw [get?_modify]
    by_cases hw : wanted = key
    · subst hw
      cases hg : t.get? wanted with
      | none => exact absurd hg h
      | some v => simp
    · simp [hw]

theorem values_insert_of_get?_eq_none {t : Table κ α} {key : κ} {value : α}
    (h : t.get? key = none) : (t.insert key value).values = t.values ++ [value] := by
  simp [insert, h, values]

end Table

end Licensing
