import Licensing.Json.Printer
import Licensing.Proofs.Json.Record
import Licensing.Proofs.Text.Encodings

/-!
# Written objects are read back

A string in quotes is read as this string, whatever follows (`Reader.takes_quoted`). A whole number
of 64 bits is read as this number if what follows cannot go on with it: within an object, that is
the comma or the brace after it (`Reader.Closes`). Where a reader takes each field of an object so,
or passes over it, the object is read as the record that the fields make (`Reader.takes_object`).

What each of the three rests on:

* for strings, that every character is written in one of three ways (`escaped_cases`) and each way
  is read as this character and as no end (`Reader.stringStep_escaped`); the rest is an induction on
  the characters;
* for numbers, that the digits of a number below the bound fit into a numeral one by one
  (`Reader.pushAll_digits`), and that no digit, point or exponent comes after them;
* for objects, the path on which the fields fill the record (`Reader.Fills`), an induction on the
  fields in which each step is a field that is read or a field that is passed over.

The loops of the reader stop after as many steps as the text is long. That these are enough is said
once (`Reader.takes_repeating_more`), and no other proof counts steps.
-/

namespace Licensing.Json.Reader

variable {α β σ : Type} {text rest : List Char}

/-! ### Taking step by step -/

theorem Takes.bind {reader : Reader α} {f : α → Reader β} {mid : List Char} {a : α} {b : β}
    (h : Takes reader text a mid) (hrest : Takes (f a) mid b rest) :
    Takes (reader >>= f) text b rest :=
  takes_bind_iff.2 ⟨a, mid, h, hrest⟩

theorem Takes.map {reader : Reader α} {a : α} (h : Takes reader text a rest) (f : α → β) :
    Takes (f <$> reader) text (f a) rest := by
  rw [← bind_pure_comp]
  exact h.bind rfl

theorem takes_skip_cons (c : Char) (text : List Char) : Takes skip (c :: text) () text := rfl

theorem takes_colon_cons (text : List Char) : Takes colon (':' :: text) () text := rfl

theorem takes_lift {x : Except Fault α} {a : α} (h : x = .ok a) :
    Takes (liftM x) text a text := by
  rw [h]
  rfl

/-- A text that is read to its end is read as a whole. -/
theorem Takes.run_eq {reader : Reader α} {a : α} (h : Takes reader text a []) :
    run reader text = .ok a := by
  have hread : Takes (do let a ← reader; spaces; return a) text a [] :=
    h.bind (Takes.bind (a := ()) (takes_spaces_iff.2 rfl) rfl)
  have hrun : StateT.run (do let a ← reader; spaces; return a) text = .ok (a, []) := hread
  rw [run, hrun]
  rfl

section Repeating

variable {step : σ → Reader (σ ⊕ β)} {s t : σ} {b : β}

/-- A result that is reached within some number of steps is reached within more. -/
theorem takes_loop_of_le {fuel more : Nat} (hle : fuel ≤ more)
    (h : Takes (repeating.loop step fuel s) text b rest) :
    Takes (repeating.loop step more s) text b rest := by
  induction fuel generalizing s text more with
  | zero => exact absurd h not_takes_malformed
  | succ fuel ih =>
    obtain ⟨more, rfl⟩ : ∃ less, more = less + 1 := ⟨more - 1, by omega⟩
    obtain ⟨result, mid, hstep, hrest⟩ := takes_bind_iff.1 h
    refine hstep.bind ?_
    rcases result with next | last
    · exact ih (by omega) hrest
    · exact hrest

theorem takes_repeating_last (h : Takes (step s) text (.inr b) rest) :
    Takes (repeating step s) text b rest :=
  Takes.bind (a := text) rfl (h.bind rfl)

/-- A step that takes something off leaves enough steps for the rest. -/
theorem takes_repeating_more {m : List Char} (h : Takes (step s) text (.inl t) m)
    (hless : m.length < text.length) (hrest : Takes (repeating step t) m b rest) :
    Takes (repeating step s) text b rest := by
  obtain ⟨_, _, hget, hloop⟩ := takes_bind_iff.1 hrest
  cases hget
  exact Takes.bind (a := text) rfl (h.bind (takes_loop_of_le (by omega) hloop))

end Repeating

/-! ### Strings -/

theorem fourHex_of_value? {a b c d : Char} {n : Nat} (h : Text.Hex.value? [a, b, c, d] = some n)
    (rest : List Char) : fourHex (a :: b :: c :: d :: rest) = .ok (n, rest) := by
  simp only [fourHex, h]

theorem fourHex_fixed {n : Nat} (h : n < 16 ^ 4) (rest : List Char) :
    fourHex (Text.Hex.fixed 4 n ++ rest) = .ok (n, rest) := by
  have hvalue := Text.Hex.value?_fixed 4 n
  rw [Nat.mod_eq_of_lt h] at hvalue
  exact fourHex_of_value? hvalue rest

/-- A control character has an escape of four digits. -/
theorem escape_control {c : Char} (h : c.toNat < 0x20) (rest : List Char) :
    escape ('u' :: (Text.Hex.fixed 4 c.toNat ++ rest)) = .ok (c, rest) := by
  have hchar : Char.ofNat c.toNat = c := Char.ofNat_toNat c
  have hlow : ¬ 0xDC00 ≤ c.toNat := by omega
  have hhigh : ¬ 0xD800 ≤ c.toNat := by omega
  simp only [escape, fourHex_fixed (show c.toNat < 16 ^ 4 by omega)]
  simp [Bind.bind, Except.bind, hlow, hhigh, hchar]

/-- A character is written as an escape by a letter, as an escape by number, or as itself. -/
theorem escaped_cases (c : Char) :
    (∃ letter, escaped c = ['\\', letter] ∧ "\"\\/bfnrt".toList.contains letter = true ∧
      ∀ rest, escape (letter :: rest) = .ok (c, rest)) ∨
    (c.toNat < 0x20 ∧ escaped c = '\\' :: 'u' :: Text.Hex.fixed 4 c.toNat) ∨
    c ≠ '"' ∧ c ≠ '\\' ∧ ¬ c.toNat < 0x20 ∧ escaped c = [c] := by
  by_cases hletter : c ∈ ['"', '\\', '\x08', '\x0c', '\n', '\r', '\t']
  · left
    simp only [List.mem_cons, List.not_mem_nil, or_false] at hletter
    rcases hletter with rfl | rfl | rfl | rfl | rfl | rfl | rfl <;>
      exact ⟨_, rfl, by decide, fun _ ↦ rfl⟩
  · right
    simp only [List.mem_cons, List.not_mem_nil, or_false, not_or] at hletter
    obtain ⟨hquote, hslash, hb, hf, hn, hr, ht⟩ := hletter
    by_cases hcontrol : c.toNat < 0x20
    · left
      simp [escaped, hquote, hslash, hb, hf, hn, hr, ht, hcontrol]
    · right
      simp [escaped, hquote, hslash, hb, hf, hn, hr, ht, hcontrol]

theorem length_escaped_pos (c : Char) : 0 < (escaped c).length := by
  rcases escaped_cases c with ⟨letter, h, -⟩ | ⟨-, h⟩ | ⟨-, -, -, h⟩ <;> simp [h]

/-- A character is read as itself, and as no end. -/
theorem stringStep_escaped (c : Char) (rest : List Char) :
    stringStep (escaped c ++ rest) = .ok (some c, rest) := by
  rcases escaped_cases c with ⟨letter, h, -, hread⟩ | ⟨hcontrol, h⟩ | ⟨hquote, hslash, hplain, h⟩
  · show stringStep _ = _
    rw [h]
    show (escape (letter :: rest)).map _ = _
    rw [hread]
    rfl
  · rw [h]
    show (escape ('u' :: (Text.Hex.fixed 4 c.toNat ++ rest))).map _ = _
    rw [escape_control hcontrol]
    rfl
  · rw [h, List.singleton_append]
    unfold stringStep
    split
    · next heq => cases heq
    · next heq => exact absurd (List.cons.inj heq).1 hquote
    · next heq => exact absurd (List.cons.inj heq).1 hslash
    · next heq =>
      obtain ⟨rfl, rfl⟩ := List.cons.inj heq
      exact if_neg hplain

/-- One character of a string, or its end. The state is the characters that were read, the last
first. -/
def stringBodyStep (taken : List Char) : Reader (List Char ⊕ String) := do
  match ← (fun s ↦ stringStep s : Reader (Option Char)) with
  | some c => return .inl (c :: taken)
  | none => return .inr (String.ofList taken.reverse)

theorem stringBody_eq : stringBody = repeating stringBodyStep [] := rfl

theorem takes_stringBody_from (taken chars rest : List Char) :
    Takes (repeating stringBodyStep taken) (chars.flatMap escaped ++ '"' :: rest)
      (String.ofList (taken.reverse ++ chars)) rest := by
  induction chars generalizing taken with
  | nil =>
    rw [List.append_nil]
    exact takes_repeating_last rfl
  | cons c chars ih =>
    rw [List.flatMap_cons, List.append_assoc]
    have hstep : Takes (stringBodyStep taken)
        (escaped c ++ (chars.flatMap escaped ++ '"' :: rest)) (.inl (c :: taken))
        (chars.flatMap escaped ++ '"' :: rest) :=
      Takes.bind (stringStep_escaped c _) rfl
    have hless := length_escaped_pos c
    refine takes_repeating_more hstep (by simp only [List.length_append]; omega) ?_
    have hrest := ih (c :: taken)
    rwa [List.reverse_cons, List.append_assoc, List.singleton_append] at hrest

/-- What stands between the quotes of a string is read as this string. -/
theorem takes_stringBody (s : String) (rest : List Char) :
    Takes stringBody (s.toList.flatMap escaped ++ '"' :: rest) s rest := by
  have h := takes_stringBody_from [] s.toList rest
  rwa [← stringBody_eq, List.reverse_nil, List.nil_append, String.ofList_toList] at h

theorem quoted_append (s : String) (rest : List Char) :
    quoted s ++ rest = '"' :: (s.toList.flatMap escaped ++ '"' :: rest) := by
  simp [quoted]

/-- **A string in quotes is read as this string**, whatever follows. -/
theorem takes_quoted (s : String) (rest : List Char) : Takes string (quoted s ++ rest) s rest := by
  rw [quoted_append]
  exact takes_stringBody s rest

theorem takes_optional_quoted (s : String) (rest : List Char) :
    Takes (optional string) (quoted s ++ rest) (some s) rest := by
  have h := (takes_quoted s rest).map some
  rw [quoted_append] at h ⊢
  exact h

/-- One character that is passed over, or the end of a string. -/
def passStringStep (_ : Unit) : Reader (Unit ⊕ Unit) := do
  match ← get with
  | [] => malformed
  | '"' :: rest => set rest; return .inr ()
  | '\\' :: 'u' :: rest => do
    let (_, rest) ← (fourHex rest : Except Fault _)
    set rest
    return .inl ()
  | '\\' :: c :: rest =>
    if "\"\\/bfnrt".toList.contains c then set rest; return .inl () else malformed
  | c :: rest => if c.toNat < 0x20 then malformed else set rest; return .inl ()

theorem passString_eq : passString = repeating passStringStep () := rfl

theorem passStringStep_escaped (c : Char) (rest : List Char) :
    Takes (passStringStep ()) (escaped c ++ rest) (.inl ()) rest := by
  rcases escaped_cases c with ⟨letter, h, hletter, -⟩ | ⟨hcontrol, h⟩ | ⟨hquote, hslash, hplain, h⟩
  · rw [h]
    have hmem : letter ∈ ['"', '\\', '/', 'b', 'f', 'n', 'r', 't'] := by simpa using hletter
    simp only [List.mem_cons, List.not_mem_nil, or_false] at hmem
    rcases hmem with rfl | rfl | rfl | rfl | rfl | rfl | rfl | rfl <;> rfl
  · rw [h]
    have hread := fourHex_fixed (show c.toNat < 16 ^ 4 by omega) rest
    refine Takes.bind (a := '\\' :: 'u' :: (Text.Hex.fixed 4 c.toNat ++ rest)) rfl ?_
    exact Takes.bind (takes_lift hread) rfl
  · rw [h, List.singleton_append]
    refine Takes.bind (a := c :: rest) rfl ?_
    split
    · next heq => cases heq
    · next heq => exact absurd (List.cons.inj heq).1 hquote
    · next heq => exact absurd (List.cons.inj heq).1 hslash
    · next heq => exact absurd (List.cons.inj heq).1 hslash
    · next heq =>
      obtain ⟨rfl, rfl⟩ := List.cons.inj heq
      rw [if_neg hplain]
      rfl

/-- What stands between the quotes of a string is passed over, with the quote after it. -/
theorem takes_passString (chars rest : List Char) :
    Takes passString (chars.flatMap escaped ++ '"' :: rest) () rest := by
  rw [passString_eq]
  induction chars with
  | nil => exact takes_repeating_last rfl
  | cons c chars ih =>
    rw [List.flatMap_cons, List.append_assoc]
    have hless := length_escaped_pos c
    exact takes_repeating_more (passStringStep_escaped c _)
      (by simp only [List.length_append]; omega) ih

/-! ### Whole numbers -/

/-- What follows a value within an object: a comma, or the closing brace. -/
def Closes (rest : List Char) : Prop := ∃ c after, rest = c :: after ∧ (c = ',' ∨ c = '}')

theorem takes_digitsRun {ds : List Char} (hds : ∀ c ∈ ds, c.isDigit = true) (h : Closes rest) :
    Takes digitsRun (ds ++ rest) ds rest := by
  obtain ⟨c, after, rfl, hc⟩ := h
  have hend : c.isDigit = false := by rcases hc with rfl | rfl <;> rfl
  have htake : (ds ++ c :: after).takeWhile Char.isDigit = ds := by
    rw [List.takeWhile_append_of_pos hds, List.takeWhile_cons_of_neg (by simp [hend]),
      List.append_nil]
  show Except.ok ((ds ++ c :: after).takeWhile Char.isDigit,
    (ds ++ c :: after).drop ((ds ++ c :: after).takeWhile Char.isDigit).length) = _
  rw [htake, List.drop_left]

theorem takes_wholePart (n : Nat) (h : Closes rest) :
    Takes wholePart (Text.Decimal.digits n ++ rest) (Text.Decimal.digits n) rest := by
  refine (takes_digitsRun (fun c ↦ Text.Decimal.isDigit_of_mem_digits) h).bind ?_
  -- A zero is written with a single digit, and nothing else starts with zero.
  have hzero : ¬ (1 < (Text.Decimal.digits n).length ∧
      (Text.Decimal.digits n).head? = some '0') := by
    rintro ⟨hlong, hhead⟩
    obtain rfl := Text.Decimal.eq_zero_of_head?_digits hhead
    rw [Text.Decimal.digits, if_pos (by decide)] at hlong
    exact absurd hlong (by decide)
  obtain ⟨d, ds, hdigits⟩ := List.exists_cons_of_ne_nil (Text.Decimal.digits_ne_nil n)
  rw [hdigits] at hzero ⊢
  show Takes (if 1 < (d :: ds).length && (d :: ds).head? = some '0' then malformed
    else pure (d :: ds)) rest (d :: ds) rest
  rw [if_neg (by simpa using hzero)]
  rfl

-- The bound is a large number, so nothing here may be left to evaluate a comparison with it.
theorem pushAll_cons (start : Nat) (d : Char) (ds : List Char) :
    pushAll start (d :: ds) =
      match Numeral.push? start (Text.Decimal.valueOf d) with
      | some n => pushAll n ds
      | none => (start, d :: ds) := by
  with_unfolding_all rfl

theorem pushAll_append {start n : Nat} {ds : List Char} (h : pushAll start ds = (n, []))
    (more : List Char) : pushAll start (ds ++ more) = pushAll n more := by
  induction ds generalizing start with
  | nil =>
    obtain ⟨rfl, -⟩ := Prod.mk.inj h
    rfl
  | cons d ds ih =>
    rw [pushAll_cons] at h
    rw [List.cons_append, pushAll_cons]
    cases hpush : Numeral.push? start (Text.Decimal.valueOf d) with
    | some next =>
      simp only [hpush] at h
      exact ih h
    | none =>
      simp only [hpush] at h
      cases (Prod.mk.inj h).2

/-- The digits of a number below the bound of a numeral all fit into one. -/
theorem pushAll_digits {n : Nat} (h : n < Numeral.digitsBound) :
    pushAll 0 (Text.Decimal.digits n) = (n, []) := by
  have hpush (m d : Nat) (hm : m * 10 + d < Numeral.digitsBound) :
      Numeral.push? m d = some (m * 10 + d) := if_pos hm
  generalize Numeral.digitsBound = bound at h hpush
  fun_induction Text.Decimal.digits n with
  | case1 n hn =>
    rw [pushAll_cons, Text.Decimal.valueOf_digit, hpush 0 (n % 10) (by omega)]
    show (0 * 10 + n % 10, []) = (n, [])
    rw [show 0 * 10 + n % 10 = n by omega]
  | case2 n hn ih =>
    rw [pushAll_append (ih (by omega)), pushAll_cons, Text.Decimal.valueOf_digit,
      hpush (n / 10) (n % 10) (by omega)]
    show (n / 10 * 10 + n % 10, []) = (n, [])
    rw [show n / 10 * 10 + n % 10 = n by omega]

theorem takes_numeral {n : Nat} (h : n < Numeral.digitsBound) (hrest : Closes rest)
    (negative : Bool) :
    Takes (numeral negative) (Text.Decimal.digits n ++ rest) ⟨negative, n, 0, true⟩ rest := by
  refine (takes_wholePart n hrest).bind ?_
  rw [pushAll_digits h]
  obtain ⟨c, after, rfl, rfl | rfl⟩ := hrest <;> rfl

theorem takes_number {n : Nat} (h : n < Numeral.digitsBound) (hrest : Closes rest) :
    Takes (number false) (Text.Decimal.digits n ++ rest) (.int n) rest :=
  (takes_numeral h hrest false).bind rfl

theorem takes_number_negative {n : Nat} (hpos : 0 < n) (hle : n ≤ twoTo 63) (hrest : Closes rest) :
    Takes (number true) (Text.Decimal.digits n ++ rest) (.int (-n)) rest := by
  have h : n < Numeral.digitsBound :=
    Nat.lt_of_le_of_lt hle (show twoTo 63 < twoTo 64 by decide)
  refine (takes_numeral h hrest true).bind ?_
  have hjson : Numeral.toJson? ⟨true, n, 0, true⟩ = some (.int (-n)) := by
    have hfits : ¬ (n = 0 ∨ twoTo 63 < n) := by omega
    simp only [Numeral.toJson?, if_true, Bool.not_true, Bool.false_eq_true, if_false, hfits]
  simp only [hjson]
  rfl

theorem takes_passNumber (n : Nat) (hrest : Closes rest) :
    Takes passNumber (Text.Decimal.digits n ++ rest) () rest := by
  refine (takes_wholePart n hrest).bind ?_
  obtain ⟨c, after, rfl, rfl | rfl⟩ := hrest <;> rfl

/-- What stands at the front and is no white space is seen as it stands. -/
theorem takes_spaces_peek_of {f : Option Char → Reader α} {c : Char} {a : α}
    (hc : isSpace c = false) (h : Takes (f (some c)) (c :: text) a rest) :
    Takes (do spaces; f (← peek)) (c :: text) a rest := by
  have hspaces : Takes spaces (c :: text) () (c :: text) :=
    takes_spaces_iff.2 (List.dropWhile_cons_of_neg (by simp [hc]))
  have hpeek : Takes peek (c :: text) (some c) (c :: text) := takes_peek_iff.2 ⟨rfl, rfl⟩
  exact hspaces.bind (hpeek.bind h)

/-- A number starts with a digit. -/
theorem exists_digit (n : Nat) : ∃ d ds, Text.Decimal.digits n = d :: ds ∧ d.isDigit = true := by
  obtain ⟨d, ds, hdigits⟩ := List.exists_cons_of_ne_nil (Text.Decimal.digits_ne_nil n)
  have hmem : d ∈ Text.Decimal.digits n := hdigits ▸ List.mem_cons_self
  exact ⟨d, ds, hdigits, Text.Decimal.isDigit_of_mem_digits hmem⟩

theorem isSpace_of_isDigit {d : Char} (h : d.isDigit = true) : isSpace d = false := by
  unfold isSpace
  simp only [Bool.or_eq_false_iff, decide_eq_false_iff_not]
  refine ⟨⟨⟨?_, ?_⟩, ?_⟩, ?_⟩ <;>
    · rintro rfl
      cases h

theorem takes_whole {n : Int} (h : -(twoTo 63 : Int) ≤ n ∧ n < twoTo 63) :
    Takes (int64.whole (.int n)) rest n rest := by
  show Takes (if -(twoTo 63 : Int) ≤ n && n < twoTo 63 then pure n else mismatched) rest n rest
  rw [if_pos (by simpa using h)]
  rfl

/-- **A whole number of 64 bits is read as this number**, if what follows it closes it. -/
theorem takes_ofInt {n : Int} (h : -(twoTo 63 : Int) ≤ n ∧ n < twoTo 63) (hrest : Closes rest) :
    Takes int64 (Text.Decimal.ofInt n ++ rest) n rest := by
  unfold Text.Decimal.ofInt
  by_cases hneg : n < 0
  · rw [if_pos hneg]
    have hread := takes_number_negative (n := n.natAbs) (by omega) (by omega) hrest
    rw [show (-(n.natAbs : Int)) = n by omega] at hread
    exact hread.bind (takes_whole h)
  · rw [if_neg hneg]
    have hread := takes_number (n := n.natAbs)
      (Nat.lt_of_lt_of_le (show n.natAbs < twoTo 63 by omega) (show twoTo 63 ≤ twoTo 64 by decide))
      hrest
    rw [show ((n.natAbs : Nat) : Int) = n by omega] at hread
    obtain ⟨d, ds, hdigits, hd⟩ := exists_digit n.natAbs
    rw [hdigits] at hread ⊢
    refine takes_spaces_peek_of (isSpace_of_isDigit hd) ?_
    split
    · next heq =>
      cases heq
      cases hd
    · next c heq =>
      cases heq
      rw [if_pos hd]
      exact hread.bind (takes_whole h)
    · next heq => cases heq

/-! ### Written values -/

/-- The reader takes the value, as it is written, for this, whatever closes it. -/
def Reads (reader : Reader α) (value : Json) (a : α) : Prop :=
  ∀ rest, Closes rest → Takes reader (value.text ++ rest) a rest

theorem Reads.map {reader : Reader α} {value : Json} {a : α} (h : Reads reader value a)
    (f : α → β) : Reads (f <$> reader) value (f a) :=
  fun rest hrest ↦ (h rest hrest).map f

theorem text_string (s : String) : (Json.string s).text = quoted s := by rw [Json.text]

theorem text_int (n : Int) : (Json.int n).text = Text.Decimal.ofInt n := by rw [Json.text]

theorem reads_string (s : String) : Reads string (.string s) s := fun rest _ ↦ by
  rw [text_string]
  exact takes_quoted s rest

theorem reads_optional_string (s : String) : Reads (optional string) (.string s) (some s) :=
  fun rest _ ↦ by
    rw [text_string]
    exact takes_optional_quoted s rest

theorem reads_int64 {n : Int} (h : -(twoTo 63 : Int) ≤ n ∧ n < twoTo 63) :
    Reads int64 (.int n) n := fun _ hrest ↦ by
  rw [text_int]
  exact takes_ofInt h hrest

/-- A string is passed over. -/
theorem reads_pass_string (s : String) : Reads pass (.string s) () := fun rest hrest ↦ by
  rw [text_string, quoted_append]
  unfold pass
  refine takes_repeating_more (t := ([], true)) (m := rest) ?_ ?_ (takes_repeating_last ?_)
  · exact (takes_passString s.toList rest).map fun _ ↦
      (.inl ([], true) : (List Char × Bool) ⊕ Unit)
  · simp only [List.length_cons, List.length_append]
    omega
  · obtain ⟨c, after, rfl, rfl | rfl⟩ := hrest <;> rfl

/-- A whole number is passed over. -/
theorem reads_pass_int (n : Int) : Reads pass (.int n) () := fun rest hrest ↦ by
  rw [text_int]
  have hread := (takes_passNumber n.natAbs hrest).map fun _ ↦
    (.inl ([], true) : (List Char × Bool) ⊕ Unit)
  obtain ⟨d, ds, hdigits, hd⟩ := exists_digit n.natAbs
  unfold pass Text.Decimal.ofInt
  rw [hdigits] at hread ⊢
  refine takes_repeating_more (t := ([], true)) (m := rest) ?_ ?_ (takes_repeating_last ?_)
  · by_cases hneg : n < 0
    · rw [if_pos hneg]
      exact hread
    · rw [if_neg hneg]
      refine takes_spaces_peek_of (isSpace_of_isDigit hd) ?_
      split
      case h_8 c _ _ _ _ _ _ _ heq =>
        cases heq
        rw [if_pos hd]
        exact hread
      case h_9 heq => cases heq
      -- no word, string, array or object starts with a digit
      all_goals
        next heq =>
        cases heq
        cases hd
  · split <;> simp only [List.length_append, List.length_cons] <;> omega
  · obtain ⟨c, after, rfl, rfl | rfl⟩ := hrest <;> rfl

/-! ### Records -/

/-- Fields as they are written, the first of them after a comma unless it is the first of all. -/
def membersText : Bool → Fields → List Char
  | _, [] => []
  | first, (name, value) :: fields =>
    (if first then [] else [',']) ++ quoted name ++ ':' :: (value.text ++ membersText false fields)

theorem fieldsText_eq (fields : Fields) : fieldsText fields = membersText true fields := by
  induction fields with
  | nil => rw [fieldsText, membersText]
  | cons field fields ih =>
    obtain ⟨name, value⟩ := field
    cases fields with
    | nil => simp [fieldsText, membersText]
    | cons next fields => simp [fieldsText, ih, membersText]

theorem membersText_cons_append (first : Bool) (name : String) (value : Json) (fields : Fields)
    (rest : List Char) : membersText first ((name, value) :: fields) ++ rest =
      (if first then [] else [',']) ++ quoted name ++
        ':' :: (value.text ++ (membersText false fields ++ rest)) := by
  simp only [membersText, List.append_assoc, List.cons_append]

/-- What follows a field of an object closes it. -/
theorem closes_membersText (fields : Fields) (rest : List Char) :
    Closes (membersText false fields ++ '}' :: rest) := by
  cases fields with
  | nil => exact ⟨'}', rest, rfl, .inr rfl⟩
  | cons field fields => exact ⟨',', _, rfl, .inl rfl⟩

/-- On the way through its fields an object makes one record another: a field that is wanted is
read, and any other is passed over. -/
inductive Fills (slots : List (Slot σ)) : σ → Fields → σ → Prop
  | none {r : σ} : Fills slots r [] r
  | field {name : String} {value : Json} {fields : Fields} {slot : Slot σ} {set : σ → σ} {r r' : σ}
      (hslot : slots.find? (·.name == name) = some slot) (hread : Reads slot.read value set)
      (hrest : Fills slots (set r) fields r') : Fills slots r ((name, value) :: fields) r'
  | other {name : String} {value : Json} {fields : Fields} {r r' : σ}
      (hslot : slots.find? (·.name == name) = .none) (hpass : Reads pass value ())
      (hrest : Fills slots r fields r') : Fills slots r ((name, value) :: fields) r'

theorem takes_nextField_closed (first : Bool) (rest : List Char) :
    Takes (nextField first) ('}' :: rest) false ('}' :: rest) := by
  cases first <;> rfl

theorem takes_nextField_more (first : Bool) (name : String) (rest : List Char) :
    Takes (nextField first) ((if first then [] else [',']) ++ quoted name ++ rest) true
      (quoted name ++ rest) := by
  cases first <;> rfl

section Member

variable {slots : List (Slot σ)} {name : String} {value : Json} (seen : List String) (first : Bool)
  (r : σ)

/-- A field that is wanted and was not read before is read. -/
theorem takes_memberStep_field {slot : Slot σ} {set : σ → σ}
    (hslot : slots.find? (·.name == name) = some slot) (hread : Reads slot.read value set)
    (hnew : name ∉ seen) (hrest : Closes rest) :
    Takes (memberStep slots (seen, first, r))
      ((if first then [] else [',']) ++ quoted name ++ ':' :: (value.text ++ rest))
      (.inl (name :: seen, false, set r)) rest := by
  refine (takes_nextField_more first name _).bind ?_
  rw [quoted_append]
  refine (takes_skip_cons '"' _).bind ((takes_stringBody name _).bind ?_)
  simp only [hslot]
  rw [if_neg (by simpa using hnew)]
  exact (takes_colon_cons _).bind ((hread rest hrest).bind rfl)

/-- A field that is not wanted is passed over. -/
theorem takes_memberStep_other (hslot : slots.find? (·.name == name) = none)
    (hpass : Reads pass value ()) (hrest : Closes rest) :
    Takes (memberStep slots (seen, first, r))
      ((if first then [] else [',']) ++ quoted name ++ ':' :: (value.text ++ rest))
      (.inl (seen, false, r)) rest := by
  refine (takes_nextField_more first name _).bind ?_
  rw [quoted_append]
  refine (takes_skip_cons '"' _).bind ((takes_stringBody name _).bind ?_)
  simp only [hslot]
  exact (takes_colon_cons _).bind ((hpass rest hrest).bind rfl)

end Member

/-- **Fields that fill a record are taken for it**, where no name stands twice and what has to be
there is there. -/
theorem Fills.takes {slots : List (Slot σ)} {fields : Fields} {r r' : σ}
    (h : Fills slots r fields r') (first : Bool) (seen : List String)
    (hnodup : (fields.map (·.1)).Nodup) (hfresh : ∀ name ∈ fields.map (·.1), name ∉ seen)
    (hpresent : ∀ slot ∈ slots, slot.required = true →
      slot.name ∈ seen ∨ slot.name ∈ fields.map (·.1)) (rest : List Char) :
    Takes (repeating (memberStep slots) (seen, first, r))
      (membersText first fields ++ '}' :: rest) r' rest := by
  induction h generalizing first seen with
  | @none r =>
    have hall : slots.all (fun slot ↦ !slot.required || seen.contains slot.name) = true := by
      refine List.all_eq_true.2 fun slot hslot ↦ ?_
      cases hrequired : slot.required with
      | false => rfl
      | true =>
        rcases hpresent slot hslot hrequired with hseen | hmem
        · simpa using hseen
        · cases hmem
    refine takes_repeating_last ((takes_nextField_closed first rest).bind ?_)
    simp only [Bool.false_eq_true, if_false, hall, if_true]
    exact (takes_skip_cons '}' rest).bind rfl
  | @field name value fields slot set r r' hslot hread hrest ih =>
    rw [List.map_cons, List.nodup_cons] at hnodup
    obtain ⟨hnew, hfresh⟩ := List.forall_mem_cons.1 hfresh
    have hstep := takes_memberStep_field seen first r hslot hread hnew
      (closes_membersText fields rest)
    rw [membersText_cons_append]
    refine takes_repeating_more hstep ?_ (ih false (name :: seen) hnodup.2 ?_ ?_)
    · simp only [List.length_append, List.length_cons]
      omega
    · intro other hother hmem
      rcases List.mem_cons.1 hmem with rfl | hseen
      · exact hnodup.1 hother
      · exact hfresh other hother hseen
    · intro slot hslot hrequired
      rw [List.mem_cons]
      rcases hpresent slot hslot hrequired with hseen | hmem
      · exact .inl (.inr hseen)
      · rcases List.mem_cons.1 hmem with heq | hmem
        · exact .inl (.inl heq)
        · exact .inr hmem
  | @other name value fields r r' hslot hpass hrest ih =>
    rw [List.map_cons, List.nodup_cons] at hnodup
    obtain ⟨-, hfresh⟩ := List.forall_mem_cons.1 hfresh
    have hstep := takes_memberStep_other seen first r hslot hpass (closes_membersText fields rest)
    rw [membersText_cons_append]
    refine takes_repeating_more hstep ?_ (ih false seen hnodup.2 hfresh ?_)
    · simp only [List.length_append, List.length_cons]
      omega
    · intro slot hmember hrequired
      rcases hpresent slot hmember hrequired with hseen | hmem
      · exact .inl hseen
      · rcases List.mem_cons.1 hmem with heq | hmem
        · exact absurd (beq_of_eq heq) (List.find?_eq_none.1 hslot slot hmember)
        · exact .inr hmem

/-- **An object is read as the record that its fields fill**, where no name stands twice and what
has to be there is there. -/
theorem takes_object {slots : List (Slot σ)} {fields : Fields} {start r : σ}
    (h : Fills slots start fields r) (hnodup : (fields.map (·.1)).Nodup)
    (hpresent : ∀ slot ∈ slots, slot.required = true → slot.name ∈ fields.map (·.1)) :
    Takes (record slots start) (Json.object fields).text r [] := by
  have hinside := h.takes true [] hnodup (fun _ _ ↦ List.not_mem_nil)
    (fun slot hslot hrequired ↦ .inr (hpresent slot hslot hrequired)) []
  rw [Json.text, fieldsText_eq]
  exact hinside

end Licensing.Json.Reader
