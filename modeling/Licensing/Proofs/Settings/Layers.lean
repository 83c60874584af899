import Licensing.Settings.Reading

/-!
# What comes of laying layers

A value at a path of names is a table of tables (`Path.nest?`), so each entry of a layer says what
fields it has for a section (`fieldsFor?`), unless it gives the section as something else than a
table. As long as nothing does that (`Layer.Tables`), the sections do not mix, and below the name of
a setting stands what the values given for it come to when each is laid over the next lower one
(`pile`). Only the highest of them counts unless it is a table (`settle_cons`).

The main result is `get?_partIn_foldl`. It rests on what one entry does to one section
(`IsTabled.put`), and goes from there to a layer and to all layers by the same induction: what was
given before is left open at the bottom (`pile_append`), so each step puts more on top.
-/

namespace Licensing

theorem Json.isObject_iff {value : Json} :
    value.isObject = true ↔ ∃ fields : Json.Fields, value = .object fields := by
  cases value <;> simp [isObject, fields?]

/-- The values that fields give under a name in lower case, the last first. -/
def Json.Fields.under (fields : Json.Fields) (name : String) : List Json :=
  (fields.filterMap fun (here, value) ↦
    if Settings.lowerCase here = name then some value else none).reverse

namespace Settings

open Json (Fields)

variable {heading name : String} {path : Path} {value tree : Json} {fields : Fields}

/-! ### Piles of values -/

/-- What is there after values have been laid over what was at the bottom, the first on top. -/
def pile (values : List Json) (bottom : Option Json) : Option Json :=
  values.foldr (fun value lower ↦ some (overlay value lower)) bottom

@[simp] theorem pile_nil (bottom : Option Json) : pile [] bottom = bottom := rfl

@[simp] theorem pile_cons (value : Json) (values : List Json) (bottom : Option Json) :
    pile (value :: values) bottom = some (overlay value (pile values bottom)) := rfl

theorem pile_append (above below : List Json) (bottom : Option Json) :
    pile (above ++ below) bottom = pile above (pile below bottom) :=
  List.foldr_append

/-- What values come to, the first on top. -/
def settle (values : List Json) : Option Json := pile values none

/-- What is no table takes the place of what was there. -/
theorem overlay_of_not_isObject (h : value.isObject = false) (old : Option Json) :
    overlay value old = value := by
  cases value with
  | object fields => cases h
  | _ => rfl

/-- **The highest value counts** unless it is a table. -/
theorem settle_cons (h : value.isObject = false) (lower : List Json) :
    settle (value :: lower) = some value :=
  congrArg some (overlay_of_not_isObject h _)

/-! ### Tables over tables -/

theorem fieldsOf_object (fields : Fields) : fieldsOf (.object fields) = fields := rfl

/-- A table stays a table. -/
theorem isObject_overlayAll (fields : Fields) (h : tree.isObject = true) :
    (overlayAll fields tree).isObject = true := by
  induction fields generalizing tree with
  | nil => rwa [overlayAll]
  | cons field rest ih =>
    rw [overlayAll]
    exact ih rfl

theorem under_cons (field : String × Json) (fields : Fields) (name : String) :
    Fields.under (field :: fields) name =
      fields.under name ++ if lowerCase field.1 = name then [field.2] else [] := by
  unfold Fields.under
  by_cases h : lowerCase field.1 = name <;> simp [h]

/-- Below a name stands what is given under it, laid over what stood there. -/
theorem get?_overlayAll (fields : Fields) (tree : Json) (name : String) :
    Fields.get? (fieldsOf (overlayAll fields tree)) name =
      pile (fields.under name) (Fields.get? (fieldsOf tree) name) := by
  induction fields generalizing tree with
  | nil => rfl
  | cons field rest ih =>
    rw [overlayAll, ih, fieldsOf_object, Fields.get?_insert, under_cons, pile_append]
    by_cases h : lowerCase field.1 = name
    · subst h
      simp
    · simp [h]

/-! ### Paths of names -/

/-- The table that has a value at a path; there is none if the path picks an item of a list. -/
def Path.nest? (value : Json) : Path → Option Json
  | [] => some value
  | .field name :: rest => (nest? value rest).map fun inner ↦ .object [(name, inner)]
  | .item _ :: _ => none

/-- Laying a value at a path of names is laying a table over the tree. -/
theorem put_eq_overlayAll {rest : Path} {inner : Json} (h : Path.nest? value rest = some inner) :
    put value (.field name :: rest) tree = overlayAll [(name, inner)] tree := by
  induction rest generalizing name inner tree with
  | nil => cases h; rfl
  | cons step rest ih =>
    cases step with
    | item index => cases h
    | field next =>
      obtain ⟨inmost, hinmost, rfl⟩ := Option.map_eq_some_iff.1 h
      -- Where there is nothing, a table is laid over `null` there and over no fields here.
      have hnothing : ∀ old : Option Json, overlayAll [(next, inmost)] (old.getD .null) =
          overlayAll [(next, inmost)] (old.getD (.object [])) := by
        rintro (- | old) <;> rfl
      rw [put, ih hinmost, hnothing]
      · simp only [overlayAll, overlay]
      · nofun

/-! ### Sections -/

/-- What a tree has for a section. -/
def part? (heading : String) (tree : Json) : Option Json := (fieldsOf tree).get? heading

/-- The fields of a section of a tree, none if it is not there. -/
def partIn (heading : String) (tree : Json) : Fields := fieldsOf ((part? heading tree).getD .null)

/-- The tree is a table, and so is its section if it is there. -/
structure IsTabled (heading : String) (tree : Json) : Prop where
  root : tree.isObject = true
  part : ∀ value, part? heading tree = some value → value.isObject = true

theorem isTabled_empty (heading : String) : IsTabled heading (.object []) := ⟨rfl, nofun⟩

/-- The fields that an entry of a layer has for a section, none if it is about another one. It is
`none` where the section is given as something else than a table. -/
def fieldsFor? (heading : String) : Path × Json → Option Fields
  | (.field name :: rest, value) =>
    if lowerCase name = heading then (Path.nest? value rest).bind Json.fields? else some []
  | _ => none

theorem isObject_put (value : Json) (name : String) (rest : Path) (tree : Json) :
    (put value (.field name :: rest) tree).isObject = true := by
  cases rest <;> rfl

/-- A value in one section leaves the others as they are. -/
theorem part?_put_of_ne (value : Json) (rest : Path) (tree : Json) (h : lowerCase name ≠ heading) :
    part? heading (put value (.field name :: rest) tree) = part? heading tree := by
  cases rest <;> exact (Fields.get?_insert _ _ _ _).trans (if_neg h)

/-- A value in a section that comes to a table is laid over what the section was. -/
theorem part?_put {rest : Path} (h : Path.nest? value rest = some (.object fields)) (name : String)
    (tree : Json) :
    part? (lowerCase name) (put value (.field name :: rest) tree) =
      some (overlayAll fields ((part? (lowerCase name) tree).getD (.object []))) := by
  rw [put_eq_overlayAll h, overlayAll, overlayAll, overlay]
  exact (Fields.get?_insert _ _ _ _).trans (if_pos rfl)

/-- **One entry**: a section that is a table stays one, and each of its fields has what the entry
gives for it laid over what it had. -/
theorem IsTabled.put (h : IsTabled heading tree)
    (hfields : fieldsFor? heading (path, value) = some fields) :
    IsTabled heading (put value path tree) ∧ ∀ name,
      (partIn heading (put value path tree)).get? name =
        pile (fields.under name) ((partIn heading tree).get? name) := by
  match path with
  | [] | .item _ :: _ => cases hfields
  | .field first :: rest =>
    have hroot := isObject_put value first rest tree
    by_cases hfirst : lowerCase first = heading
    · subst hfirst
      rw [fieldsFor?, if_pos rfl] at hfields
      obtain ⟨inner, hinner, hobject⟩ := Option.bind_eq_some_iff.1 hfields
      obtain rfl : inner = .object fields := by
        cases inner <;> cases hobject
        rfl
      have hpart := part?_put hinner first tree
      refine ⟨⟨hroot, fun value hvalue ↦ ?_⟩, fun name ↦ ?_⟩
      · obtain rfl := Option.some.inj (hpart.symm.trans hvalue)
        refine isObject_overlayAll _ ?_
        rcases hold : part? (lowerCase first) tree with - | old
        · rfl
        · exact h.part old hold
      · rw [partIn, hpart, Option.getD_some, get?_overlayAll, partIn]
        cases part? (lowerCase first) tree <;> rfl
    · rw [fieldsFor?, if_neg hfirst] at hfields
      cases hfields
      have hpart := part?_put_of_ne value rest tree hfirst
      refine ⟨⟨hroot, fun value hvalue ↦ h.part value (hpart ▸ hvalue)⟩, fun name ↦ ?_⟩
      rw [partIn, hpart]
      rfl

/-- Whether a layer gives a section as a table wherever it gives it. -/
def Layer.Tables (layer : Layer) (heading : String) : Prop :=
  ∀ entry ∈ layer, (fieldsFor? heading entry).isSome = true

instance (layer : Layer) (heading : String) : Decidable (layer.Tables heading) :=
  inferInstanceAs (Decidable (∀ entry ∈ layer, _))

/-- The values that a layer gives for a setting, the last first. -/
def Layer.given (layer : Layer) (heading name : String) : List Json :=
  layer.reverse.flatMap fun entry ↦ ((fieldsFor? heading entry).getD []).under name

/-- A value at the path of a setting is given for that setting and no other. -/
theorem given_field (first second heading name : String) (value : Json) :
    Layer.given [([.field first, .field second], value)] heading name =
      if lowerCase first = heading ∧ lowerCase second = name then [value] else [] := by
  by_cases hfirst : lowerCase first = heading <;> by_cases hsecond : lowerCase second = name <;>
    simp [Layer.given, fieldsFor?, Path.nest?, Json.fields?, Fields.under, hfirst, hsecond]

/-- **One layer.** -/
theorem IsTabled.onto {layer : Layer} (h : IsTabled heading tree) (hlayer : layer.Tables heading) :
    IsTabled heading (layer.onto tree) ∧ ∀ name, (partIn heading (layer.onto tree)).get? name =
      pile (layer.given heading name) ((partIn heading tree).get? name) := by
  induction layer generalizing tree with
  | nil => exact ⟨h, fun _ ↦ rfl⟩
  | cons entry rest ih =>
    obtain ⟨path, value⟩ := entry
    obtain ⟨fields, hfields⟩ := Option.isSome_iff_exists.1 (hlayer _ List.mem_cons_self)
    obtain ⟨hput, hgetPut⟩ := h.put hfields
    obtain ⟨honto, hget⟩ := ih hput fun entry hentry ↦ hlayer entry (List.mem_cons_of_mem _ hentry)
    refine ⟨honto, fun name ↦ (hget name).trans ?_⟩
    rw [hgetPut, ← pile_append]
    simp [Layer.given, hfields]

/-- **All layers**: if none gives a section as something else than a table, then each of its fields
has what the values given for it come to, those of the higher layers on top. -/
theorem get?_partIn_foldl {layers : List Layer}
    (hlayers : ∀ layer ∈ layers, layer.Tables heading) :
    let tree := layers.foldl (fun tree layer ↦ layer.onto tree) (.object [])
    IsTabled heading tree ∧ ∀ name,
      (partIn heading tree).get? name = settle (layers.reverse.flatMap (·.given heading name)) := by
  suffices hfold : ∀ tree, IsTabled heading tree →
      IsTabled heading (layers.foldl (fun tree layer ↦ layer.onto tree) tree) ∧ ∀ name,
        (partIn heading (layers.foldl (fun tree layer ↦ layer.onto tree) tree)).get? name =
          pile (layers.reverse.flatMap (·.given heading name))
            ((partIn heading tree).get? name) from
    hfold _ (isTabled_empty heading)
  induction layers with
  | nil => exact fun tree h ↦ ⟨h, fun _ ↦ rfl⟩
  | cons layer rest ih =>
    intro tree h
    obtain ⟨honto, hgetOnto⟩ := h.onto (hlayers layer List.mem_cons_self)
    obtain ⟨hrest, hget⟩ :=
      ih (fun layer hlayer ↦ hlayers layer (List.mem_cons_of_mem _ hlayer)) _ honto
    refine ⟨hrest, fun name ↦ (hget name).trans ?_⟩
    rw [hgetOnto, ← pile_append]
    simp

end Settings

end Licensing
