import Licensing.License.Verdict

/-!
# Reading metadata

A value that is no object, and one that is missing, hold nothing under any name
(`Metadata.field?`). Whatever the service reads of metadata it reads by name, so two values that
agree on a name cannot be told apart by anything that only looks there: the strings that bind a
license or are claimed by an agent (`string?`, which finds exactly what a value `Holds`), and what
an agent is told (`disclosure?_eq_of_agree`; `discloses_disclosure?` says what that is).
`field?_enriched` says what noting an acceptance does to every name.
-/

namespace Licensing.Metadata

/-- The value under a name. -/
def field? (value : Option Json) (name : String) : Option Json := value.bind (·.get? name)

/-- The value has this text under a name, and it is not empty. -/
def Holds (value : Option Json) (name text : String) : Prop :=
  field? value name = some (.string text) ∧ text ≠ ""

/-- The string under a name, if it is not empty. -/
def string? (value : Option Json) (name : String) : Option String :=
  (value.bind Json.fields?).bind (Json.Fields.nonEmptyString? · name)

theorem field?_eq_bind (value : Option Json) (name : String) :
    field? value name = (value.bind Json.fields?).bind (Json.Fields.get? · name) := by
  cases value <;> rfl

@[simp] theorem field?_none (name : String) : field? none name = none := rfl

@[simp] theorem field?_object (fields : Json.Fields) (name : String) :
    field? (some (.object fields)) name = fields.get? name := rfl

theorem string?_eq (value : Option Json) (name : String) :
    string? value name = match field? value name with
      | some (.string text) => if text = "" then none else some text
      | _ => none := by
  rw [field?_eq_bind, string?]
  cases value.bind Json.fields? with
  | none => rfl
  | some fields => rfl

theorem string?_eq_some_iff {value : Option Json} {name text : String} :
    string? value name = some text ↔ Holds value name text := by
  rw [string?_eq, Holds]
  split
  · next found h =>
    split
    · next hempty =>
      simp only [h, hempty, Option.some.injEq, Json.string.injEq, reduceCtorEq, false_iff, not_and]
      rintro rfl hne
      exact hne rfl
    · next hne =>
      simp only [h, Option.some.injEq, Json.string.injEq]
      exact ⟨fun heq ↦ ⟨heq, heq ▸ hne⟩, fun h ↦ h.1⟩
  · next h =>
    simp only [reduceCtorEq, false_iff, not_and]
    exact fun hfound ↦ absurd hfound (h text)

theorem string?_eq_none_iff {value : Option Json} {name : String} :
    string? value name = none ↔ ∀ text, ¬ Holds value name text := by
  simp only [Option.eq_none_iff_forall_ne_some, ne_eq, string?_eq_some_iff]

theorem string?_congr {a b : Option Json} {name : String} (h : field? a name = field? b name) :
    string? a name = string? b name := by
  rw [string?_eq, string?_eq, h]

/-- The claims in a value are its strings. -/
theorem claims_eq (value : Option Json) :
    Claims.ofJson value =
      ⟨string? value deviceId, string? value userId, string? value ipAddress⟩ := by
  unfold Claims.ofJson string?
  cases value.bind Json.fields? <;> rfl

/-! ### What an agent is told -/

theorem disclosure?_eq (value : Option Json) :
    disclosure? (value.bind Json.fields?) =
      match field? value "features", field? value "limits" with
      | none, none => none
      | some features, none => some (.object [("features", features)])
      | none, some limits => some (.object [("limits", limits)])
      | some features, some limits =>
        some (.object [("features", features), ("limits", limits)]) := by
  unfold disclosure?
  simp only [disclosed, List.filterMap_cons, List.filterMap_nil, ← field?_eq_bind]
  cases field? value "features" <;> cases field? value "limits" <;> rfl

/-- What of a value is told: an object of exactly those fields that may be told and are there, each
as it is, and nothing if there are none. -/
structure Discloses (value told : Option Json) : Prop where
  eq_none_iff : told = none ↔ ∀ name ∈ disclosed, field? value name = none
  names : ∀ object, told = some object → ∃ fields : Json.Fields, object = .object fields ∧
    fields.map (·.1) = disclosed.filter fun name ↦ (field? value name).isSome
  field?_eq : ∀ name ∈ disclosed, field? told name = field? value name

/-- **What an agent is told** is exactly what may be told. -/
theorem discloses_disclosure? (value : Option Json) :
    Discloses value (disclosure? (value.bind Json.fields?)) := by
  rw [disclosure?_eq]
  cases hfeatures : field? value "features" <;> cases hlimits : field? value "limits"
  all_goals
    constructor
    · simp [disclosed, hfeatures, hlimits]
    · rintro object heq
      cases heq <;> exact ⟨_, rfl, by simp [disclosed, hfeatures, hlimits]⟩
    · simp [disclosed, hfeatures, hlimits, Json.Fields.get?]

/-- Values that agree on what may be told tell the same. -/
theorem disclosure?_eq_of_agree {a b : Option Json}
    (h : ∀ name ∈ disclosed, field? a name = field? b name) :
    disclosure? (a.bind Json.fields?) = disclosure? (b.bind Json.fields?) := by
  rw [disclosure?_eq, disclosure?_eq, h "features" (by decide), h "limits" (by decide)]

/-! ### Noting an acceptance -/

/-- **What noting an acceptance does to every name**: the time is set, the address is set where one
is known, and all else is as it was. -/
theorem field?_enriched (base : Option Json) (now : Instant) (ip : Option String) (name : String) :
    field? (some (enriched base now ip)) name =
      if name = lastValidatedAt then some (.string (Time.Rfc3339.toTextNanos now))
      else if name = lastIp then (ip.map Json.string).or (field? base lastIp)
      else field? base name := by
  -- The address goes in after the time, so the two names have to differ.
  have hnames : lastIp ≠ lastValidatedAt := by decide
  have hbase : ((base.bind Json.fields?).getD []).get? name = field? base name := by
    rw [field?_eq_bind]
    cases base.bind Json.fields? <;> rfl
  unfold enriched
  by_cases htime : name = lastValidatedAt
  · subst htime
    cases ip <;> simp [field?_object, Json.Fields.get?_insert, hnames]
  · rw [if_neg htime]
    by_cases haddress : name = lastIp
    · subst haddress
      cases ip <;> simp [field?_object, Json.Fields.get?_insert, hbase, Ne.symm htime]
    · cases ip <;>
        simp [field?_object, Json.Fields.get?_insert, hbase, haddress, Ne.symm htime,
          Ne.symm haddress]

/-- Metadata with an acceptance noted are an object. -/
theorem isObject_enriched (base : Option Json) (now : Instant) (ip : Option String) :
    (enriched base now ip).isObject = true := by
  unfold enriched
  cases ip <;> rfl

/-- The values agree on every name but the two under which acceptances are noted. -/
def Agree (a b : Option Json) : Prop :=
  ∀ name, name ≠ lastValidatedAt → name ≠ lastIp → field? a name = field? b name

theorem Agree.refl (value : Option Json) : Agree value value := fun _ _ _ ↦ rfl

theorem Agree.trans {a b c : Option Json} (hab : Agree a b) (hbc : Agree b c) : Agree a c :=
  fun name ht hi ↦ (hab name ht hi).trans (hbc name ht hi)

/-- Noting an acceptance changes nothing else. -/
theorem agree_enriched (base : Option Json) (now : Instant) (ip : Option String) :
    Agree base (some (enriched base now ip)) := by
  intro name ht hi
  rw [field?_enriched, if_neg ht, if_neg hi]

end Licensing.Metadata
