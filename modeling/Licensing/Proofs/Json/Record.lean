import Licensing.Json.Record

/-!
# What a record is read from

A reader that succeeds has taken a value off the front of a text (`Reader.Takes`). The results here
say what the text of a record looked like, whatever else it may hold: the members of an object with
the text that stood for each value (`Reader.Members`), or the items of an array (`Reader.Items`).

* `Reader.record_takes`: one of the two, and for an object, no field is repeated and none that has
  to be there is missing.
* `Reader.Members.says_or_silent`: where every field sets its own part of the record, that part is
  what the one member of its name says, and is left as it was if there is none.

The first rests on what a single step of the loop over members can have taken
(`Reader.memberStep_takes`) and on an induction over the steps (`Reader.members_of_runs`); the loop
is bounded by the length of the text, and nothing is said of the bound. The second rests on the
first only through `Reader.Members`, so it is an induction on the members and looks at no text.

The text as a whole is not compared with the values of `Licensing.Json.Basic`. A member that no
field wants is passed over, however deep it is and however large its numbers are, so there are texts
of which a record can be read and a value cannot.
-/

namespace Licensing.Json.Reader

variable {α β σ τ : Type} {text rest : List Char}

/-- The reader takes a value off the front of the text, and this is the rest. -/
def Takes (reader : Reader α) (text : List Char) (a : α) (rest : List Char) : Prop :=
  reader text = .ok (a, rest)

/-- The text without the white space at its front. -/
def unspaced (text : List Char) : List Char := text.dropWhile isSpace

theorem unspaced_unspaced (text : List Char) : unspaced (unspaced text) = unspaced text := by
  induction text with
  | nil => rfl
  | cons c text ih =>
    unfold unspaced at ih ⊢
    by_cases hspace : isSpace c = true
    · rwa [List.dropWhile_cons_of_pos hspace]
    · rw [List.dropWhile_cons_of_neg hspace, List.dropWhile_cons_of_neg hspace]

/-! ### Step by step -/

theorem takes_pure_iff {a b : α} : Takes (pure a) text b rest ↔ a = b ∧ text = rest := by
  show Except.ok (a, text) = Except.ok (b, rest) ↔ _
  simp

theorem takes_bind_iff {reader : Reader α} {f : α → Reader β} {b : β} :
    Takes (reader >>= f) text b rest ↔
      ∃ a mid, Takes reader text a mid ∧ Takes (f a) mid b rest := by
  unfold Takes
  show (reader text >>= fun taken ↦ f taken.1 taken.2) = _ ↔ _
  rcases reader text with fault | taken
  · simp [Bind.bind, Except.bind]
  · constructor
    · exact fun h ↦ ⟨taken.1, taken.2, rfl, h⟩
    · rintro ⟨a, mid, ⟨⟩, h⟩
      exact h

theorem takes_map {reader : Reader α} {f : α → β} {b : β} (h : Takes (f <$> reader) text b rest) :
    ∃ a, Takes reader text a rest ∧ f a = b := by
  rw [← bind_pure_comp] at h
  obtain ⟨a, mid, hreader, hpure⟩ := takes_bind_iff.1 h
  obtain ⟨rfl, rfl⟩ := takes_pure_iff.1 hpure
  exact ⟨a, hreader, rfl⟩

theorem takes_peek_iff {next : Option Char} :
    Takes peek text next rest ↔ text.head? = next ∧ text = rest := by
  show Except.ok (text.head?, text) = Except.ok (next, rest) ↔ _
  simp

theorem takes_skip_iff {u : Unit} : Takes skip text u rest ↔ text.tail = rest := by
  show Except.ok ((), text.tail) = Except.ok (u, rest) ↔ _
  simp

theorem takes_spaces_iff {u : Unit} : Takes spaces text u rest ↔ unspaced text = rest := by
  show Except.ok ((), unspaced text) = Except.ok (u, rest) ↔ _
  simp

theorem not_takes_malformed {a : α} : ¬ Takes malformed text a rest := nofun

theorem not_takes_mismatched {a : α} : ¬ Takes mismatched text a rest := nofun

/-- A reader that goes on with what comes after white space, by the next character. -/
theorem takes_spaces_peek {f : Option Char → Reader α} {a : α}
    (h : Takes (do spaces; f (← peek)) text a rest) :
    Takes (f (unspaced text).head?) (unspaced text) a rest := by
  obtain ⟨_, _, hspaces, h⟩ := takes_bind_iff.1 h
  obtain rfl := takes_spaces_iff.1 hspaces
  obtain ⟨_, _, hpeek, h⟩ := takes_bind_iff.1 h
  obtain ⟨rfl, rfl⟩ := takes_peek_iff.1 hpeek
  exact h

theorem takes_skip_bind {f : Unit → Reader α} {a : α} (h : Takes (skip >>= f) text a rest) :
    Takes (f ()) text.tail a rest := by
  obtain ⟨_, _, hskip, h⟩ := takes_bind_iff.1 h
  obtain rfl := takes_skip_iff.1 hskip
  exact h

/-- A text that has a first character is that character and its tail. -/
theorem eq_cons_of_head? {c : Char} (h : text.head? = some c) : text = c :: text.tail := by
  cases text with
  | nil => cases h
  | cons d text =>
    cases h
    rfl

/-- A whole text is read: nothing but white space follows. -/
theorem run_eq_ok {reader : Reader α} {a : α} (h : Reader.run reader text = .ok a) :
    ∃ rest, Takes reader text a rest ∧ unspaced rest = [] := by
  unfold Reader.run at h
  rcases hread : StateT.run (do let a ← reader; spaces; return a) text with fault | ⟨b, rest⟩
  · rw [hread] at h
    cases h
  · rw [hread] at h
    obtain ⟨a', mid, hreader, hspaced⟩ := takes_bind_iff.1 (show Takes _ text b rest from hread)
    obtain ⟨_, _, hspaces, hpure⟩ := takes_bind_iff.1 hspaced
    obtain rfl := takes_spaces_iff.1 hspaces
    obtain ⟨rfl, rfl⟩ := takes_pure_iff.1 hpure
    simp only [Bind.bind, Except.bind] at h
    split at h
    · next hend =>
      cases h
      exact ⟨mid, hreader, hend⟩
    · cases h

/-- What is taken by repeating a step: it goes on until it gives a result. -/
inductive Runs (step : σ → Reader (σ ⊕ β)) : σ → List Char → β → List Char → Prop
  | last {s : σ} {text : List Char} {b : β} {rest : List Char}
      (h : Takes (step s) text (.inr b) rest) : Runs step s text b rest
  | more {s s' : σ} {text mid : List Char} {b : β} {rest : List Char}
      (h : Takes (step s) text (.inl s') mid) (hrest : Runs step s' mid b rest) :
      Runs step s text b rest

theorem runs_of_loop {step : σ → Reader (σ ⊕ β)} {fuel : Nat} {s : σ} {b : β}
    (h : Takes (repeating.loop step fuel s) text b rest) : Runs step s text b rest := by
  induction fuel generalizing s text with
  | zero => exact absurd h not_takes_malformed
  | succ fuel ih =>
    obtain ⟨result, mid, hstep, hrest⟩ := takes_bind_iff.1 h
    rcases result with s' | b'
    · exact .more hstep (ih hrest)
    · obtain ⟨rfl, rfl⟩ := takes_pure_iff.1 hrest
      exact .last hstep

theorem runs_of_repeating {step : σ → Reader (σ ⊕ β)} {s : σ} {b : β}
    (h : Takes (repeating step s) text b rest) : Runs step s text b rest := by
  obtain ⟨text', _, hget, hloop⟩ := takes_bind_iff.1 h
  cases hget
  exact runs_of_loop hloop

/-! ### Punctuation -/

/-- After the text, the name of a member starts: at once in an object just opened, else after a
comma. -/
def OpensName (first : Bool) (text named : List Char) : Prop :=
  if first then unspaced text = '"' :: named
  else ∃ after, unspaced text = ',' :: after ∧ unspaced after = '"' :: named

theorem nextField_takes {first more : Bool} (h : Takes (nextField first) text more rest) :
    if more then ∃ named, rest = '"' :: named ∧ OpensName first text named
    else unspaced text = rest ∧ rest.head? = some '}' := by
  have h := takes_spaces_peek h
  split at h
  · next hclosed =>
    obtain ⟨rfl, rfl⟩ := takes_pure_iff.1 h
    exact ⟨rfl, hclosed⟩
  · next hcomma =>
    cases first with
    | true =>
      obtain ⟨_, _, hfault, -⟩ := takes_bind_iff.1 h
      exact absurd hfault not_takes_malformed
    | false =>
      have h := takes_spaces_peek (takes_skip_bind h)
      split at h
      · next hquote =>
        obtain ⟨rfl, rfl⟩ := takes_pure_iff.1 h
        have hnamed := eq_cons_of_head? hquote
        exact ⟨_, hnamed, _, eq_cons_of_head? hcomma, hnamed⟩
      · exact absurd h not_takes_malformed
  · next hquote =>
    cases first with
    | true =>
      obtain ⟨rfl, rfl⟩ := takes_pure_iff.1 h
      exact ⟨_, eq_cons_of_head? hquote, eq_cons_of_head? hquote⟩
    | false => exact absurd h not_takes_malformed
  · exact absurd h not_takes_malformed

theorem colon_takes {u : Unit} (h : Takes colon text u rest) : unspaced text = ':' :: rest := by
  have h := takes_spaces_peek h
  split at h
  · next hcolon =>
    obtain rfl := takes_skip_iff.1 h
    exact eq_cons_of_head? hcolon
  · exact absurd h not_takes_malformed

/-! ### Objects -/

/-- The members of an object, from after its opening brace or a member to after its closing brace:
the name of each and the text from its value on. On the way a record becomes another: the value of a
member that is a field is read as such, and changes the record; any other value is passed over. -/
inductive Members (slots : List (Slot σ)) :
    Bool → List Char → σ → List (String × List Char) → σ → List Char → Prop
  | closed {first : Bool} {text rest : List Char} {r : σ} (h : unspaced text = '}' :: rest) :
      Members slots first text r [] r rest
  | field {first : Bool} {text named after value next rest : List Char} {name : String}
      {slot : Slot σ} {set : σ → σ} {r r' : σ} {members : List (String × List Char)}
      (hopens : OpensName first text named) (hname : Takes stringBody named name after)
      (hcolon : unspaced after = ':' :: value)
      (hslot : slots.find? (·.name == name) = some slot) (hread : Takes slot.read value set next)
      (hrest : Members slots false next (set r) members r' rest) :
      Members slots first text r ((name, value) :: members) r' rest
  | other {first : Bool} {text named after value next rest : List Char} {name : String}
      {r r' : σ} {members : List (String × List Char)}
      (hopens : OpensName first text named) (hname : Takes stringBody named name after)
      (hcolon : unspaced after = ':' :: value)
      (hslot : slots.find? (·.name == name) = none) (hpass : Takes pass value () next)
      (hrest : Members slots false next r members r' rest) :
      Members slots first text r ((name, value) :: members) r' rest

/-- The names of members that are fields. -/
def fieldNames (slots : List (Slot σ)) (members : List (String × List Char)) : List String :=
  (members.map (·.1)).filter fun name ↦ (slots.find? (·.name == name)).isSome

/-- One member of a record, or its end. The state is the names that were read, whether none has
been, and the record so far. -/
def memberStep (slots : List (Slot σ)) :
    List String × Bool × σ → Reader ((List String × Bool × σ) ⊕ σ)
  | (seen, first, record) => do
    if ← nextField first then
      skip
      let name ← stringBody
      match slots.find? (·.name == name) with
      | some slot =>
        if seen.contains name then mismatched
        colon
        let set ← slot.read
        return .inl (name :: seen, false, set record)
      | none =>
        colon
        pass
        return .inl (seen, false, record)
    else
      if slots.all fun slot ↦ !slot.required || seen.contains slot.name then
        skip
        return .inr record
      else mismatched

theorem recordFields_eq (slots : List (Slot σ)) (start : σ) :
    recordFields slots start = repeating (memberStep slots) ([], true, start) := rfl

/-- What a step has read: the end of the object, with nothing missing that has to be there, or a
member, which is a field that was not read before or is passed over. -/
theorem memberStep_takes {slots : List (Slot σ)} {seen : List String} {first : Bool} {r : σ}
    {out : (List String × Bool × σ) ⊕ σ}
    (h : Takes (memberStep slots (seen, first, r)) text out rest) :
    (out = .inr r ∧ unspaced text = '}' :: rest ∧
      ∀ slot ∈ slots, slot.required = true → slot.name ∈ seen) ∨
    ∃ named name after value, OpensName first text named ∧ Takes stringBody named name after ∧
      unspaced after = ':' :: value ∧
      ((∃ slot set, slots.find? (·.name == name) = some slot ∧ name ∉ seen ∧
          Takes slot.read value set rest ∧ out = .inl (name :: seen, false, set r)) ∨
        (slots.find? (·.name == name) = none ∧ Takes pass value () rest ∧
          out = .inl (seen, false, r))) := by
  obtain ⟨more, here, hnext, h⟩ := takes_bind_iff.1 h
  have hnext := nextField_takes hnext
  cases more with
  | false =>
    simp only [Bool.false_eq_true, if_false] at hnext h
    obtain ⟨rfl, hclosed⟩ := hnext
    split at h
    · next hpresent =>
      have h := takes_skip_bind h
      obtain ⟨rfl, rfl⟩ := takes_pure_iff.1 h
      refine .inl ⟨rfl, eq_cons_of_head? hclosed, fun slot hslot hrequired ↦ ?_⟩
      simpa [hrequired] using List.all_eq_true.1 hpresent slot hslot
    · exact absurd h not_takes_mismatched
  | true =>
    simp only [if_true] at hnext h
    obtain ⟨named, rfl, hopens⟩ := hnext
    obtain ⟨name, after, hname, h⟩ := takes_bind_iff.1 (takes_skip_bind h)
    refine .inr ⟨named, name, after, ?_⟩
    split at h
    · next slot hslot =>
      by_cases hseen : seen.contains name = true
      · simp only [hseen, if_true] at h
        obtain ⟨_, _, hfault, -⟩ := takes_bind_iff.1 h
        exact absurd hfault not_takes_mismatched
      · simp only [hseen, Bool.false_eq_true, if_false] at h
        obtain ⟨_, value, hcolon, h⟩ := takes_bind_iff.1 h
        obtain ⟨set, _, hread, h⟩ := takes_bind_iff.1 h
        obtain ⟨rfl, rfl⟩ := takes_pure_iff.1 h
        refine ⟨value, hopens, hname, colon_takes hcolon, .inl ⟨slot, set, hslot, ?_, hread, rfl⟩⟩
        exact fun hmem ↦ hseen (List.contains_iff_mem.2 hmem)
    · next hslot =>
      obtain ⟨_, value, hcolon, h⟩ := takes_bind_iff.1 h
      obtain ⟨_, _, hpass, h⟩ := takes_bind_iff.1 h
      obtain ⟨rfl, rfl⟩ := takes_pure_iff.1 h
      exact ⟨value, hopens, hname, colon_takes hcolon, .inr ⟨hslot, hpass, rfl⟩⟩

/-- **From some member on**: no field is repeated, nor read before, and what has to be there is
there or was read before. The induction is on the steps. -/
theorem members_of_runs {slots : List (Slot σ)} {seen : List String} {first : Bool} {r r' : σ}
    (h : Runs (memberStep slots) (seen, first, r) text r' rest) :
    ∃ members, Members slots first text r members r' rest ∧ (fieldNames slots members).Nodup ∧
      (∀ name ∈ fieldNames slots members, name ∉ seen) ∧
      ∀ slot ∈ slots, slot.required = true →
        slot.name ∈ seen ∨ slot.name ∈ fieldNames slots members := by
  generalize hstate : (seen, first, r) = state at h
  induction h generalizing seen first r with
  | last hstep =>
    subst hstate
    rcases memberStep_takes hstep with ⟨hout, hclosed, hpresent⟩ | ⟨_, _, _, _, -, -, -, h⟩
    · cases hout
      refine ⟨[], .closed hclosed, List.nodup_nil, nofun, fun slot hslot hrequired ↦ ?_⟩
      exact .inl (hpresent slot hslot hrequired)
    · rcases h with ⟨_, _, -, -, -, hout⟩ | ⟨-, -, hout⟩ <;> cases hout
  | more hstep _ ih =>
    subst hstate
    rcases memberStep_takes hstep with ⟨hout, -⟩ | ⟨_, name, _, value, hopens, hname, hcolon, h⟩
    · cases hout
    rcases h with ⟨slot, set, hslot, hnew, hread, hout⟩ | ⟨hslot, hpass, hout⟩
    · cases hout
      obtain ⟨members, hmembers, hnodup, hfresh, hpresent⟩ := ih rfl
      have hnames : fieldNames slots ((name, value) :: members) =
          name :: fieldNames slots members := by
        simp [fieldNames, hslot]
      refine ⟨_, .field hopens hname hcolon hslot hread hmembers, ?_, ?_, ?_⟩
      · rw [hnames]
        exact List.nodup_cons.2 ⟨fun hmem ↦ hfresh name hmem List.mem_cons_self, hnodup⟩
      · rw [hnames]
        refine List.forall_mem_cons.2 ⟨hnew, fun other hother hseen ↦ ?_⟩
        exact hfresh other hother (List.mem_cons_of_mem _ hseen)
      · intro other hother hrequired
        rw [hnames]
        rcases hpresent other hother hrequired with hmem | hmem
        · rcases List.mem_cons.1 hmem with heq | hseen
          · exact .inr (heq ▸ List.mem_cons_self)
          · exact .inl hseen
        · exact .inr (List.mem_cons_of_mem _ hmem)
    · cases hout
      obtain ⟨members, hmembers, hrest⟩ := ih rfl
      have hnames : fieldNames slots ((name, value) :: members) = fieldNames slots members := by
        simp [fieldNames, hslot]
      refine ⟨_, .other hopens hname hcolon hslot hpass hmembers, ?_⟩
      rwa [hnames]

/-- The text is an object with these members, of which the record is read: no field is repeated, and
none that has to be there is missing. -/
structure Object (slots : List (Slot σ)) (text : List Char) (start : σ)
    (members : List (String × List Char)) (r : σ) (rest : List Char) : Prop where
  opened : ∃ inside, unspaced text = '{' :: inside ∧ Members slots true inside start members r rest
  nodup : (fieldNames slots members).Nodup
  present : ∀ slot ∈ slots, slot.required = true → slot.name ∈ members.map (·.1)

/-! ### Arrays -/

/-- The items of an array, from after its opening bracket or an item to after its closing bracket:
the text from each value on. They are the fields of a record in their order. -/
inductive Items : List (Slot σ) → Bool → List Char → σ → List (List Char) → σ → List Char → Prop
  | closed {first : Bool} {text rest : List Char} {r : σ} (h : unspaced text = ']' :: rest) :
      Items [] first text r [] r rest
  | item {slot : Slot σ} {slots : List (Slot σ)} {first : Bool} {text value next rest : List Char}
      {set : σ → σ} {r r' : σ} {values : List (List Char)}
      (hnext : Takes (nextItem first) text true value) (hread : Takes slot.read value set next)
      (hrest : Items slots false next (set r) values r' rest) :
      Items (slot :: slots) first text r (value :: values) r' rest
  | ended {slot : Slot σ} {slots : List (Slot σ)} {first : Bool} {text next rest : List Char}
      {r r' : σ} {values : List (List Char)}
      (hnext : Takes (nextItem first) text false next) (hmay : slot.mayEndBefore = true)
      (hrest : Items slots first next r values r' rest) :
      Items (slot :: slots) first text r values r' rest

theorem items_of_recordItems {slots : List (Slot σ)} {first : Bool} {r r' : σ}
    (h : Takes (recordItems slots first r) text r' rest) :
    ∃ values, Items slots first text r values r' rest := by
  induction slots generalizing first text r with
  | nil =>
    have h := takes_spaces_peek h
    split at h
    · next hclosed =>
      obtain ⟨rfl, rfl⟩ := takes_pure_iff.1 (takes_skip_bind (f := fun _ ↦ pure r) h)
      exact ⟨[], .closed (eq_cons_of_head? hclosed)⟩
    · exact absurd h not_takes_malformed
  | cons slot slots ih =>
    obtain ⟨more, here, hnext, h⟩ := takes_bind_iff.1 h
    cases more with
    | true =>
      simp only [if_true] at h
      obtain ⟨set, next, hread, h⟩ := takes_bind_iff.1 h
      obtain ⟨values, hrest⟩ := ih h
      exact ⟨_, .item hnext hread hrest⟩
    | false =>
      simp only [Bool.false_eq_true, if_false] at h
      split at h
      · next hmay =>
        obtain ⟨values, hrest⟩ := ih h
        exact ⟨values, .ended hnext hmay hrest⟩
      · exact absurd h not_takes_mismatched

/-- An array that may not end early has an item for every field. -/
theorem Items.length_eq {slots : List (Slot σ)} {first : Bool} {r r' : σ}
    {values : List (List Char)} (h : Items slots first text r values r' rest)
    (hmay : ∀ slot ∈ slots, slot.mayEndBefore = false) : values.length = slots.length := by
  induction h with
  | closed => rfl
  | item _ _ _ ih =>
    exact congrArg (· + 1) (ih fun slot hslot ↦ hmay slot (List.mem_cons_of_mem _ hslot))
  | ended _ hended =>
    rw [hmay _ List.mem_cons_self] at hended
    cases hended

/-! ### Records -/

/-- What stands where something else is wanted is not read. -/
theorem not_takes_wrongForm {a : α} : ¬ Takes wrongForm text a rest := by
  intro h
  obtain ⟨_, _, -, h⟩ := takes_bind_iff.1 h
  split at h
  · exact not_takes_mismatched h
  · exact not_takes_mismatched h
  · obtain ⟨_, _, -, h⟩ := takes_bind_iff.1 h
    exact not_takes_mismatched h

/-- **A record is read from an object or from an array.** -/
theorem record_takes {slots : List (Slot σ)} {start r : σ}
    (h : Takes (record slots start) text r rest) :
    (∃ members, Object slots text start members r rest) ∨
      ∃ inside values, unspaced text = '[' :: inside ∧
        Items slots true inside start values r rest := by
  have h := takes_spaces_peek h
  split at h
  · next hopened =>
    rw [recordFields_eq] at h
    obtain ⟨members, hmembers, hnodup, -, hpresent⟩ :=
      members_of_runs (runs_of_repeating (takes_skip_bind h))
    refine .inl ⟨members, ⟨_, eq_cons_of_head? hopened, hmembers⟩, hnodup, ?_⟩
    intro slot hslot hrequired
    rcases hpresent slot hslot hrequired with hseen | hmem
    · cases hseen
    · exact (List.mem_filter.1 hmem).1
  · next hopened =>
    obtain ⟨values, hitems⟩ := items_of_recordItems
      (takes_skip_bind (f := fun _ ↦ recordItems slots true start) h)
    exact .inr ⟨_, values, eq_cons_of_head? hopened, hitems⟩
  · exact absurd h not_takes_wrongForm

/-! ### What a member says -/

/-- Of all members there is one of the name, and its value reads so. -/
def Says (members : List (String × List Char)) (name : String) (reader : Reader α) (a : α) : Prop :=
  ∃ value rest, members.filter (·.1 == name) = [(name, value)] ∧ Takes reader value a rest

/-- There is no member of the name. -/
def Silent (members : List (String × List Char)) (name : String) : Prop :=
  name ∉ members.map (·.1)

theorem filter_eq_nil_of_silent {members : List (String × List Char)} {name : String}
    (h : Silent members name) : members.filter (·.1 == name) = [] := by
  refine List.filter_eq_nil_iff.2 fun member hmember heq ↦ h ?_
  exact List.mem_map.2 ⟨member, hmember, eq_of_beq heq⟩

/-- A member of another name does not matter. -/
theorem says_or_silent_cons {members : List (String × List Char)} {name other : String}
    {value : List Char} {reader : Reader α} {a : α} {p : Prop} (h : other ≠ name) :
    (Says ((other, value) :: members) name reader a ∨ Silent ((other, value) :: members) name ∧ p) ↔
      (Says members name reader a ∨ Silent members name ∧ p) := by
  have hfilter : ((other, value) :: members).filter (·.1 == name) =
      members.filter (·.1 == name) := List.filter_cons_of_neg (by simpa using h)
  unfold Says Silent
  rw [hfilter, List.map_cons, List.mem_cons, not_or]
  simp [Ne.symm h]

/-- Among the fields, the one of a name sets a part of the record to what is read of its value, and
no other field touches that part. -/
structure Owns (slots : List (Slot σ)) (name : String) (reader : Reader α) (part : σ → α) :
    Prop where
  sets : ∃ slot, slots.find? (·.name == name) = some slot ∧
    ∀ {value set rest}, Takes slot.read value set rest →
      ∃ a, Takes reader value a rest ∧ ∀ r, part (set r) = a
  keeps : ∀ slot ∈ slots, slot.name ≠ name → ∀ {value set rest}, Takes slot.read value set rest →
    ∀ r, part (set r) = part r

/-- **A part of the record is what its member says**, and without one it is as it was. -/
theorem Members.says_or_silent {slots : List (Slot σ)} {name : String} {reader : Reader α}
    {part : σ → α} (howns : Owns slots name reader part) {first : Bool} {r r' : σ}
    {members : List (String × List Char)} (h : Members slots first text r members r' rest)
    (hnodup : (fieldNames slots members).Nodup) :
    Says members name reader (part r') ∨ Silent members name ∧ part r' = part r := by
  obtain ⟨⟨wanted, hwanted, hsets⟩, hkeeps⟩ := howns
  induction h with
  | closed => exact .inr ⟨nofun, rfl⟩
  | @field _ _ _ _ value _ _ name' slot set r _ members _ _ _ hslot hread _ ih =>
    have hcons : fieldNames slots ((name', value) :: members) =
        name' :: fieldNames slots members := by
      simp [fieldNames, hslot]
    rw [hcons, List.nodup_cons] at hnodup
    by_cases hname : name' = name
    · subst hname
      obtain rfl := Option.some.inj (hslot.symm.trans hwanted)
      -- The name is not repeated, so nothing after this member changes its part.
      have hsilent : Silent members name' := by
        intro hmem
        exact hnodup.1 (List.mem_filter.2 ⟨hmem, by rw [hslot]; rfl⟩)
      obtain ⟨a, hvalue, hset⟩ := hsets hread
      rcases ih hnodup.2 with ⟨value', rest', hfilter, -⟩ | ⟨-, hpart⟩
      · have hmem : (name', value') ∈ members.filter (·.1 == name') := by
          rw [hfilter]
          exact List.mem_singleton_self _
        exact absurd (List.mem_map_of_mem (List.mem_filter.1 hmem).1) hsilent
      · have hfilter : ((name', value) :: members).filter (·.1 == name') = [(name', value)] := by
          rw [List.filter_cons_of_pos (by simp), filter_eq_nil_of_silent hsilent]
        rw [hpart, hset]
        exact .inl ⟨value, _, hfilter, hvalue⟩
    · have hother : slot.name ≠ name := by
        have heq := List.find?_some hslot
        exact eq_of_beq heq ▸ hname
      have hkept := hkeeps slot (List.mem_of_find?_eq_some hslot) hother hread r
      rw [← hkept]
      exact (says_or_silent_cons hname).2 (ih hnodup.2)
  | @other _ _ _ _ value _ _ name' _ _ members _ _ _ hslot _ _ ih =>
    have hcons : fieldNames slots ((name', value) :: members) = fieldNames slots members := by
      simp [fieldNames, hslot]
    have hname : name' ≠ name := by
      rintro rfl
      rw [hslot] at hwanted
      cases hwanted
    exact (says_or_silent_cons hname).2 (ih (hcons ▸ hnodup))

/-- What the members of an object say is what is read. -/
theorem Object.says_or_silent {slots : List (Slot σ)} {name : String} {reader : Reader α}
    {part : σ → α} (howns : Owns slots name reader part) {start r : σ}
    {members : List (String × List Char)} (h : Object slots text start members r rest) :
    Says members name reader (part r) ∨ Silent members name ∧ part r = part start := by
  obtain ⟨inside, -, hmembers⟩ := h.opened
  exact hmembers.says_or_silent howns h.nodup

/-- A member that has to be there says what is read. -/
theorem Object.says {slots : List (Slot σ)} {name : String} {reader : Reader α}
    {part : σ → α} (howns : Owns slots name reader part) {start r : σ}
    {members : List (String × List Char)} (h : Object slots text start members r rest)
    (hrequired : ∃ slot ∈ slots, slot.name = name ∧ slot.required = true) :
    Says members name reader (part r) := by
  obtain ⟨slot, hslot, rfl, hrequired⟩ := hrequired
  rcases h.says_or_silent howns with hsays | ⟨hsilent, -⟩
  · exact hsays
  · exact absurd (h.present slot hslot hrequired) hsilent

/-- Items of fields that do not touch a part of the record leave it as it was. -/
theorem Items.part_eq {slots : List (Slot σ)} {part : σ → α} {first : Bool} {r r' : σ}
    {values : List (List Char)} (h : Items slots first text r values r' rest)
    (hkeeps : ∀ slot ∈ slots, ∀ {value set rest}, Takes slot.read value set rest →
      ∀ r, part (set r) = part r) : part r' = part r := by
  induction h with
  | closed => rfl
  | item _ hread _ ih =>
    have hrest := ih fun slot hslot ↦ hkeeps slot (List.mem_cons_of_mem _ hslot)
    exact hrest.trans (hkeeps _ List.mem_cons_self hread _)
  | ended _ _ _ ih => exact ih fun slot hslot ↦ hkeeps slot (List.mem_cons_of_mem _ hslot)

end Licensing.Json.Reader
