import Mathlib.Data.List.TakeWhile
import Licensing.Metrics.PathLabel
import Licensing.Proofs.ApiKey.Grammar

/-!
# What path labels hide

UUIDs are hidden wherever they stand: none is left, and hiding them one after another creates no new
one (`PathLabel.not_isUuid_of_infix`). As a UUID has no slash in it, this is done to each segment on
its own, and does not change which segments are numbers.

Numbers are hidden from left to right, and one that is hidden takes the slash after it along. So the
segment after it is passed over, whatever it is (`PathLabel.redact`), and is left even if it is a
number too. The main result is `PathLabel.ofPath_hides`: in a label that was not cut short no UUID
is left, and a number is left exactly if the path has two numbers in a row.

Its two halves rest on different facts.

* That no UUID is left rests on the placeholder: its braces are no hexadecimal digits and no dashes,
  so whatever looks like a UUID after a replacement has been there before
  (`PathLabel.beginsIn_of_hideUuids`).
* Which numbers are left rests on the text being done segment by segment
  (`PathLabel.hideNumbers_slashed`), after which it is a question about lists of segments alone
  (`PathLabel.exists_isNumber_redact_iff`).

`PathLabel.not_forall_ofPath_hides` is the path on which a number is left.
-/

namespace Licensing.PathLabel

open Text (segments joined isNumeral)

/-! ### UUIDs -/

/-- A UUID: five groups of 8, 4, 4, 4 and 12 hexadecimal digits, with dashes between them. -/
inductive IsUuid : List Char → Prop
  | mk {a b c d e : List Char} (hlengths : a.length = 8 ∧ b.length = 4 ∧ c.length = 4 ∧
      d.length = 4 ∧ e.length = 12) (hdigits : ∀ group ∈ [a, b, c, d, e], ∀ digit ∈ group,
      Text.Hex.isDigit digit = true) : IsUuid (joined ['-'] [a, b, c, d, e])

/-- Digits fit a shape that asks for so many. -/
theorem beginsIn_digits {group : List Char} (hdigits : ∀ c ∈ group, Text.Hex.isDigit c = true)
    (shape rest : List Char) :
    beginsIn (List.replicate group.length 'h' ++ shape) (group ++ rest) = beginsIn shape rest := by
  induction group with
  | nil => rfl
  | cons c group ih =>
    obtain ⟨hc, hgroup⟩ := List.forall_mem_cons.1 hdigits
    simpa [List.replicate_succ, beginsIn, hc] using ih hgroup

/-- A UUID has the shape of one. -/
theorem IsUuid.beginsIn {s : List Char} (h : IsUuid s) (rest : List Char) :
    PathLabel.beginsIn uuidShape (s ++ rest) = true := by
  obtain @⟨a, b, c, d, e, ⟨ha, hb, hc, hd, he⟩, hdigits⟩ := h
  simp only [List.forall_mem_cons] at hdigits
  obtain ⟨ha', hb', hc', hd', he', -⟩ := hdigits
  have hshape : uuidShape = List.replicate a.length 'h' ++ '-' :: (List.replicate b.length 'h' ++
      '-' :: (List.replicate c.length 'h' ++ '-' :: (List.replicate d.length 'h' ++
      '-' :: (List.replicate e.length 'h' ++ [])))) := by
    rw [ha, hb, hc, hd, he]
    decide
  have htext : joined ['-'] [a, b, c, d, e] ++ rest =
      a ++ '-' :: (b ++ '-' :: (c ++ '-' :: (d ++ '-' :: (e ++ rest)))) := by
    simp [joined, List.intercalate_cons_cons]
  have hdash : ∀ shape rest, PathLabel.beginsIn ('-' :: shape) ('-' :: rest) =
      PathLabel.beginsIn shape rest := fun _ _ ↦ rfl
  rw [hshape, htext, beginsIn_digits ha', hdash, beginsIn_digits hb', hdash, beginsIn_digits hc',
    hdash, beginsIn_digits hd', hdash, beginsIn_digits he']
  rfl

/-- A text that begins in a shape is at least as long. -/
theorem length_le_of_beginsIn {shape s : List Char} (h : beginsIn shape s = true) :
    shape.length ≤ s.length := by
  induction shape generalizing s with
  | nil => exact Nat.zero_le _
  | cons p shape ih =>
    cases s with
    | nil => cases h
    | cons c s =>
      rw [beginsIn, Bool.and_eq_true] at h
      exact Nat.succ_le_succ (ih h.2)

/-- A character that a shape has no room for is not reached. -/
theorem beginsIn_append_cons {shape : List Char} {sep : Char} (hsep : sep ∉ shape)
    (hdigit : Text.Hex.isDigit sep = false) (s rest : List Char) :
    beginsIn shape (s ++ sep :: rest) = beginsIn shape s := by
  induction shape generalizing s with
  | nil => rfl
  | cons p shape ih =>
    rw [List.mem_cons, not_or] at hsep
    cases s with
    | nil => simp [beginsIn, hdigit, hsep.1]
    | cons c s => simp only [List.cons_append, beginsIn, ih hsep.2]

theorem beginsIn_uuidShape_append_cons (s rest : List Char) :
    beginsIn uuidShape (s ++ '/' :: rest) = beginsIn uuidShape s :=
  beginsIn_append_cons (by decide) (by decide) s rest

theorem hideUuids_cons_of_beginsIn {c : Char} {s : List Char}
    (h : beginsIn uuidShape (c :: s) = true) :
    hideUuids (c :: s) = placeholder ++ hideUuids (s.drop (uuidShape.length - 1)) := by
  rw [hideUuids, if_pos h]

theorem hideUuids_cons_of_not_beginsIn {c : Char} {s : List Char}
    (h : ¬ beginsIn uuidShape (c :: s) = true) : hideUuids (c :: s) = c :: hideUuids s := by
  rw [hideUuids, if_neg h]

/-- **UUIDs are hidden in each segment on its own.** -/
theorem hideUuids_append_cons (s rest : List Char) :
    hideUuids (s ++ '/' :: rest) = hideUuids s ++ '/' :: hideUuids rest := by
  induction s using hideUuids.induct with
  | case1 =>
    have hslash : ¬ beginsIn uuidShape ('/' :: rest) = true :=
      Bool.eq_false_iff.1 (beginsIn_uuidShape_append_cons [] rest)
    rw [List.nil_append, hideUuids_cons_of_not_beginsIn hslash, hideUuids, List.nil_append]
  | case2 c s h ih =>
    have hlength : uuidShape.length - 1 ≤ s.length := Nat.le_of_succ_le_succ (length_le_of_beginsIn h)
    have h' : beginsIn uuidShape (c :: (s ++ '/' :: rest)) = true :=
      (beginsIn_uuidShape_append_cons (c :: s) rest).trans h
    rw [List.cons_append, hideUuids_cons_of_beginsIn h', hideUuids_cons_of_beginsIn h,
      List.drop_append_of_le_length hlength, ih, List.append_assoc]
  | case3 c s h ih =>
    have h' : ¬ beginsIn uuidShape (c :: (s ++ '/' :: rest)) = true := by
      rwa [show c :: (s ++ '/' :: rest) = (c :: s) ++ '/' :: rest from rfl,
        beginsIn_uuidShape_append_cons]
    rw [List.cons_append, hideUuids_cons_of_not_beginsIn h', hideUuids_cons_of_not_beginsIn h, ih,
      List.cons_append]

/-- What is hidden brings nothing in but the placeholder. -/
theorem mem_hideUuids {s : List Char} {c : Char} (h : c ∈ hideUuids s) :
    c ∈ placeholder ∨ c ∈ s := by
  induction s using hideUuids.induct with
  | case1 =>
    rw [hideUuids] at h
    exact .inr h
  | case2 d s hd ih =>
    rw [hideUuids_cons_of_beginsIn hd, List.mem_append] at h
    rcases h with h | h
    · exact .inl h
    · exact (ih h).imp_right fun h ↦ List.mem_cons_of_mem _ (List.mem_of_mem_drop h)
  | case3 d s hd ih =>
    rw [hideUuids_cons_of_not_beginsIn hd, List.mem_cons] at h
    rcases h with rfl | h
    · exact .inr List.mem_cons_self
    · exact (ih h).imp_right (List.mem_cons_of_mem _)

/-- No placeholder is taken for a part of a UUID, so what looks like one has been there before. -/
theorem beginsIn_of_hideUuids {shape s : List Char} (hshape : '\x7b' ∉ shape)
    (h : beginsIn shape (hideUuids s) = true) : beginsIn shape s = true := by
  induction s using hideUuids.induct generalizing shape with
  | case1 => rwa [hideUuids] at h
  | case2 c s hc ih =>
    cases shape with
    | nil => rfl
    | cons p shape =>
      rw [List.mem_cons, not_or] at hshape
      have hopen : Text.Hex.isDigit '\x7b' = false := by decide
      rw [hideUuids_cons_of_beginsIn hc] at h
      simp [placeholder, beginsIn, hopen, hshape.1] at h
  | case3 c s hc ih =>
    rw [hideUuids_cons_of_not_beginsIn hc] at h
    cases shape with
    | nil => rfl
    | cons p shape =>
      rw [beginsIn, Bool.and_eq_true] at h ⊢
      rw [List.mem_cons, not_or] at hshape
      exact ⟨h.1, ih hshape.2 h.2⟩

theorem not_beginsIn_of_suffix {s t : List Char} (h : t <:+ hideUuids s) :
    ¬ beginsIn uuidShape t = true := by
  induction s using hideUuids.induct with
  | case1 =>
    rw [hideUuids, List.suffix_nil] at h
    rw [h]
    decide
  | case2 c s hc ih =>
    -- A UUID would have to begin within the placeholder, or after it.
    rw [hideUuids_cons_of_beginsIn hc] at h
    have hsuffix : t <:+ '\x7b' :: 'i' :: 'd' :: '\x7d' ::
        hideUuids (s.drop (uuidShape.length - 1)) := h
    simp only [List.suffix_cons_iff] at hsuffix
    rcases hsuffix with rfl | rfl | rfl | rfl | hrest
    · exact nofun
    · exact nofun
    · exact nofun
    · exact nofun
    · exact ih hrest
  | case3 c s hc ih =>
    rw [hideUuids_cons_of_not_beginsIn hc, List.suffix_cons_iff] at h
    rcases h with rfl | hrest
    · rw [← hideUuids_cons_of_not_beginsIn hc]
      exact fun hbegins ↦ hc (beginsIn_of_hideUuids (by decide) hbegins)
    · exact ih hrest

/-- **No UUID is left**, and none is created. -/
theorem not_isUuid_of_infix {s part : List Char} (h : part <:+: hideUuids s) : ¬ IsUuid part := by
  obtain ⟨before, after, heq⟩ := h
  refine fun huuid ↦ not_beginsIn_of_suffix (s := s) ?_ (huuid.beginsIn after)
  exact ⟨before, by rw [← heq, List.append_assoc]⟩

/-! ### Numbers -/

/-- A number: one decimal digit or more, and nothing else. -/
def IsNumber (s : List Char) : Prop := s ≠ [] ∧ ∀ c ∈ s, isNumeral c = true

instance (s : List Char) : Decidable (IsNumber s) :=
  decidable_of_iff (s ≠ [] ∧ s.all isNumeral = true) (and_congr_right' List.all_eq_true)

theorem not_isNumber_placeholder : ¬ IsNumber placeholder := by decide

/-- What is hidden in segments that follow slashes: of two numbers in a row only the first is
looked at. -/
def redact : List (List Char) → List (List Char)
  | [] => []
  | [segment] => [if IsNumber segment then placeholder else segment]
  | segment :: passed :: rest =>
    if IsNumber segment then placeholder :: passed :: redact rest
    else segment :: redact (passed :: rest)

/-- Segments, each with a slash before it. -/
def slashed (parts : List (List Char)) : List Char := parts.flatMap ('/' :: ·)

theorem slashed_cons (part : List Char) (rest : List (List Char)) :
    slashed (part :: rest) = '/' :: (part ++ slashed rest) := rfl

theorem joined_cons (first : List Char) (others : List (List Char)) :
    joined ['/'] (first :: others) = first ++ slashed others := by
  induction others generalizing first with
  | nil => simp [joined, slashed]
  | cons second others ih =>
    rw [joined, List.intercalate_cons_cons, ← joined, ih]
    simp [slashed]

theorem hideNumbers_cons_of_ne {c : Char} (h : c ≠ '/') (s : List Char) :
    hideNumbers (c :: s) = c :: hideNumbers s := by
  rw [hideNumbers]
  simp [h]

/-- What has no slash in it is left as it is. -/
theorem hideNumbers_append {part : List Char} (h : '/' ∉ part) (s : List Char) :
    hideNumbers (part ++ s) = part ++ hideNumbers s := by
  induction part with
  | nil => rfl
  | cons c part ih =>
    rw [List.mem_cons, not_or] at h
    rw [List.cons_append, hideNumbers_cons_of_ne (Ne.symm h.1), ih h.2, List.cons_append]

/-- A number that comes last is hidden. -/
theorem hideNumbers_of_isNumber {part : List Char} (h : IsNumber part) :
    hideNumbers ('/' :: part) = '/' :: placeholder := by
  have hdigits : part.takeWhile isNumeral = part := List.takeWhile_eq_self_iff.2 h.2
  rw [hideNumbers]
  simp only [hdigits, List.drop_length, List.head?_nil]
  rw [if_pos ⟨trivial, h.1⟩]

/-- A number with a slash after it is hidden, and the slash is taken along. -/
theorem hideNumbers_of_isNumber_slash {part : List Char} (h : IsNumber part) (s : List Char) :
    hideNumbers ('/' :: (part ++ '/' :: s)) = '/' :: (placeholder ++ '/' :: hideNumbers s) := by
  have hdigits : (part ++ '/' :: s).takeWhile isNumeral = part := by
    rw [List.takeWhile_append_of_pos h.2, List.takeWhile_cons_of_neg (by decide), List.append_nil]
  rw [hideNumbers]
  simp only [hdigits, List.drop_left, List.head?_cons]
  rw [if_pos ⟨trivial, h.1⟩, ← List.drop_drop, List.drop_left]
  rfl

/-- Where no digit follows a slash, there is nothing to hide. -/
theorem hideNumbers_of_no_digit {s : List Char} (h : s.takeWhile isNumeral = []) :
    hideNumbers ('/' :: s) = '/' :: hideNumbers s := by
  rw [hideNumbers]
  simp [h]

/-- Digits that go on to something else than a slash are left. -/
theorem hideNumbers_of_stop {digits : List Char} (hdigits : ∀ c ∈ digits, isNumeral c = true)
    {c : Char} (hc : ¬ isNumeral c = true) (hslash : c ≠ '/') (s : List Char) :
    hideNumbers ('/' :: (digits ++ c :: s)) = '/' :: hideNumbers (digits ++ c :: s) := by
  have htaken : (digits ++ c :: s).takeWhile isNumeral = digits := by
    rw [List.takeWhile_append_of_pos hdigits, List.takeWhile_cons_of_neg hc, List.append_nil]
  rw [hideNumbers]
  simp only [htaken, List.drop_left, List.head?_cons]
  split <;> rfl

/-- What is no number is left. -/
theorem hideNumbers_of_not_isNumber {part : List Char} (hfree : '/' ∉ part) (h : ¬ IsNumber part)
    (rest : List (List Char)) :
    hideNumbers ('/' :: (part ++ slashed rest)) = '/' :: (part ++ hideNumbers (slashed rest)) := by
  rw [← hideNumbers_append hfree]
  have hsplit := part.takeWhile_append_dropWhile (p := isNumeral)
  rcases hstop : part.dropWhile isNumeral with - | ⟨c, after⟩
  · -- All of it are digits, so there are none.
    have hempty : part = [] :=
      Decidable.byContradiction fun hne ↦ h ⟨hne, List.dropWhile_eq_nil_iff.1 hstop⟩
    subst hempty
    refine hideNumbers_of_no_digit ?_
    cases rest with
    | nil => rfl
    | cons next rest => exact List.takeWhile_cons_of_neg (by decide)
  · rw [hstop] at hsplit
    have hc : ¬ isNumeral c = true := by
      have hhead := List.head?_dropWhile_not isNumeral part
      rw [hstop] at hhead
      exact Bool.eq_false_iff.1 hhead
    have hslash : c ≠ '/' := by
      rintro rfl
      exact hfree (hsplit ▸ by simp)
    rw [← hsplit, List.append_assoc, List.cons_append]
    exact hideNumbers_of_stop (fun _ ↦ List.mem_takeWhile_imp) hc hslash _

/-- **Numbers are hidden segment by segment**, as far as they are looked at. -/
theorem hideNumbers_slashed (parts : List (List Char)) (hfree : ∀ part ∈ parts, '/' ∉ part) :
    hideNumbers (slashed parts) = slashed (redact parts) := by
  induction parts using redact.induct with
  | case1 => rw [redact, slashed, List.flatMap_nil, hideNumbers]
  | case2 segment =>
    have hnil : slashed [] = [] := rfl
    rw [redact, slashed_cons, slashed_cons, hnil, List.append_nil, List.append_nil]
    split_ifs with hnumber
    · exact hideNumbers_of_isNumber hnumber
    · have hleft := hideNumbers_of_not_isNumber (hfree segment List.mem_cons_self) hnumber []
      rwa [hnil, hideNumbers, List.append_nil] at hleft
  | case3 segment passed rest hnumber ih =>
    have hpassed : '/' ∉ passed := hfree passed (by simp)
    have hrest := ih fun part hpart ↦ hfree part (by simp [hpart])
    rw [redact, if_pos hnumber]
    simp only [slashed_cons]
    rw [hideNumbers_of_isNumber_slash hnumber, hideNumbers_append hpassed, hrest]
  | case4 segment passed rest hnumber ih =>
    have hrest := ih fun part hpart ↦ hfree part (List.mem_cons_of_mem _ hpart)
    rw [redact, if_neg hnumber, slashed_cons,
      hideNumbers_of_not_isNumber (hfree segment List.mem_cons_self) hnumber, hrest, ← slashed_cons]

/-! ### Numbers that are left -/

theorem mem_redact {parts : List (List Char)} {part : List Char} (h : part ∈ redact parts) :
    part = placeholder ∨ part ∈ parts := by
  induction parts using redact.induct with
  | case1 => exact .inr h
  | case2 segment =>
    rw [redact, List.mem_singleton] at h
    split_ifs at h
    · exact .inl h
    · exact .inr (h ▸ List.mem_cons_self)
  | case3 segment passed rest hnumber ih =>
    rw [redact, if_pos hnumber] at h
    simp only [List.mem_cons] at h ⊢
    rcases h with h | h | h
    · exact .inl h
    · exact .inr (.inr (.inl h))
    · exact (ih h).imp_right fun h ↦ .inr (.inr h)
  | case4 segment passed rest hnumber ih =>
    rw [redact, if_neg hnumber, List.mem_cons] at h
    rcases h with h | h
    · exact .inr (h ▸ List.mem_cons_self)
    · exact (ih h).imp_right (List.mem_cons_of_mem _)

/-- Two numbers stand next to each other. -/
def NumbersInRow (parts : List (List Char)) : Prop :=
  ∃ a b, [a, b] <:+: parts ∧ IsNumber a ∧ IsNumber b

theorem numbersInRow_cons_cons {first second : List Char} {rest : List (List Char)} :
    NumbersInRow (first :: second :: rest) ↔
      IsNumber first ∧ IsNumber second ∨ NumbersInRow (second :: rest) := by
  simp only [NumbersInRow, List.infix_cons_iff (a := first), List.cons_prefix_cons]
  constructor
  · rintro ⟨a, b, ⟨rfl, rfl, -⟩ | h, ha, hb⟩
    · exact .inl ⟨ha, hb⟩
    · exact .inr ⟨a, b, h, ha, hb⟩
  · rintro (⟨ha, hb⟩ | ⟨a, b, h, ha, hb⟩)
    · exact ⟨first, second, .inl ⟨rfl, rfl, List.nil_prefix⟩, ha, hb⟩
    · exact ⟨a, b, .inr h, ha, hb⟩

theorem not_numbersInRow_singleton (part : List Char) : ¬ NumbersInRow [part] := by
  rintro ⟨a, b, h, -⟩
  exact absurd h.length_le (by simp)

theorem NumbersInRow.cons {rest : List (List Char)} (h : NumbersInRow rest) (part : List Char) :
    NumbersInRow (part :: rest) := by
  obtain ⟨a, b, hrow, hnumbers⟩ := h
  exact ⟨a, b, List.infix_cons hrow, hnumbers⟩

theorem NumbersInRow.of_cons {part : List Char} {rest : List (List Char)}
    (h : NumbersInRow (part :: rest)) : IsNumber part ∨ NumbersInRow rest := by
  cases rest with
  | nil => exact absurd h (not_numbersInRow_singleton part)
  | cons next rest => exact (numbersInRow_cons_cons.1 h).imp_left And.left

/-- **A number is left exactly if there are two in a row.** -/
theorem exists_isNumber_redact_iff (parts : List (List Char)) :
    (∃ part ∈ redact parts, IsNumber part) ↔ NumbersInRow parts := by
  induction parts using redact.induct with
  | case1 => exact iff_of_false (by simp [redact]) fun ⟨a, b, h, _⟩ ↦ absurd h.length_le (by simp)
  | case2 segment =>
    refine iff_of_false ?_ (not_numbersInRow_singleton segment)
    rintro ⟨part, hpart, hnumber⟩
    rw [redact, List.mem_singleton] at hpart
    split_ifs at hpart with hsegment
    · exact not_isNumber_placeholder (hpart ▸ hnumber)
    · exact hsegment (hpart ▸ hnumber)
  | case3 segment passed rest hnumber ih =>
    rw [redact, if_pos hnumber, numbersInRow_cons_cons]
    simp only [List.mem_cons, exists_eq_or_imp, ih]
    constructor
    · rintro (h | h | h)
      · exact absurd h not_isNumber_placeholder
      · exact .inl ⟨hnumber, h⟩
      · exact .inr (h.cons passed)
    · rintro (⟨-, h⟩ | h)
      · exact .inr (.inl h)
      · exact .inr h.of_cons
  | case4 segment passed rest hnumber ih =>
    rw [redact, if_neg hnumber, numbersInRow_cons_cons]
    simp only [List.mem_cons, exists_eq_or_imp, ih]
    exact or_congr_left (iff_of_false hnumber fun h ↦ hnumber h.1)

/-- **A number that is left stands right after one that was hidden.** -/
theorem getLast?_eq_of_redact_eq {parts before after : List (List Char)} {number : List Char}
    (h : redact parts = before ++ number :: after) (hnumber : IsNumber number) :
    before.getLast? = some placeholder := by
  induction parts using redact.induct generalizing before with
  | case1 => simp [redact] at h
  | case2 segment =>
    rw [redact] at h
    obtain ⟨rfl, hsegment⟩ : before = [] ∧ _ = number := by
      rcases before with - | ⟨first, before⟩
      · exact ⟨rfl, (List.cons.inj h).1⟩
      · simp at h
    split_ifs at hsegment with hfirst
    · exact absurd (hsegment ▸ hnumber) not_isNumber_placeholder
    · exact absurd (hsegment ▸ hnumber) hfirst
  | case3 segment passed rest hfirst ih =>
    rw [redact, if_pos hfirst] at h
    rcases before with - | ⟨first, - | ⟨second, before⟩⟩
    · exact absurd ((List.cons.inj h).1 ▸ hnumber) not_isNumber_placeholder
    · rw [← (List.cons.inj h).1]
      rfl
    · have hlast := ih (List.cons.inj (List.cons.inj h).2).2
      rw [List.getLast?_cons, List.getLast?_cons, hlast]
      rfl
  | case4 segment passed rest hfirst ih =>
    rw [redact, if_neg hfirst] at h
    rcases before with - | ⟨first, before⟩
    · exact absurd ((List.cons.inj h).1 ▸ hnumber) hfirst
    · rw [List.getLast?_cons, ih (List.cons.inj h).2]
      rfl

/-! ### Both together -/

/-- A text in the shape of a UUID has dashes. -/
theorem mem_of_beginsIn {shape s : List Char} {p : Char} (h : beginsIn shape s = true)
    (hmem : p ∈ shape) (hp : p ≠ 'h') : p ∈ s := by
  induction shape generalizing s with
  | nil => cases hmem
  | cons q shape ih =>
    cases s with
    | nil => cases h
    | cons c s =>
      rw [beginsIn, Bool.and_eq_true] at h
      rcases List.mem_cons.1 hmem with rfl | hmem
      · rw [if_neg hp, decide_eq_true_eq] at h
        exact h.1 ▸ List.mem_cons_self
      · exact List.mem_cons_of_mem _ (ih h.2 hmem)

/-- Hiding UUIDs does not change which segments are numbers. -/
theorem isNumber_hideUuids_iff (s : List Char) : IsNumber (hideUuids s) ↔ IsNumber s := by
  have hall : (∀ c ∈ hideUuids s, isNumeral c = true) ↔ ∀ c ∈ s, isNumeral c = true := by
    induction s using hideUuids.induct with
    | case1 => rw [hideUuids]
    | case2 c s hc ih =>
      have hdash : '-' ∈ c :: s := mem_of_beginsIn hc (by decide) (by decide)
      rw [hideUuids_cons_of_beginsIn hc]
      refine iff_of_false (fun h ↦ ?_) fun h ↦ absurd (h '-' hdash) (by decide)
      exact absurd (h '\x7b' (List.mem_append_left _ (by decide))) (by decide)
    | case3 c s hc ih =>
      rw [hideUuids_cons_of_not_beginsIn hc, List.forall_mem_cons, List.forall_mem_cons, ih]
  have hnil : hideUuids s = [] ↔ s = [] := by
    cases s with
    | nil => simp [hideUuids]
    | cons c s =>
      rw [hideUuids]
      split <;> simp [placeholder]
  rw [IsNumber, IsNumber, hall, Ne, Ne, hnil]

theorem hideUuids_slashed (first : List Char) (others : List (List Char)) :
    hideUuids (first ++ slashed others) = hideUuids first ++ slashed (others.map hideUuids) := by
  induction others generalizing first with
  | nil => simp [slashed]
  | cons next others ih => rw [slashed_cons, hideUuids_append_cons, ih, List.map_cons, slashed_cons]

/-- **Label and path, segment by segment.** -/
theorem segments_hidden {s first : List Char} {others : List (List Char)}
    (h : segments '/' s = first :: others) :
    segments '/' (hideNumbers (hideUuids s)) = hideUuids first :: redact (others.map hideUuids) := by
  obtain ⟨-, hfree, hjoined⟩ := Text.segments_eq_iff.1 h
  have hkept : ∀ part ∈ first :: others, '/' ∉ hideUuids part := fun part hpart hslash ↦
    (mem_hideUuids hslash).elim (by decide) (hfree part hpart)
  have hothers : ∀ part ∈ others.map hideUuids, '/' ∉ part := by
    intro part hpart
    obtain ⟨other, hother, rfl⟩ := List.mem_map.1 hpart
    exact hkept other (List.mem_cons_of_mem _ hother)
  refine Text.segments_eq_iff.2 ⟨List.cons_ne_nil _ _, List.forall_mem_cons.2
    ⟨hkept first List.mem_cons_self, fun part hpart ↦ ?_⟩, ?_⟩
  · rcases mem_redact hpart with rfl | hpart
    · decide
    · exact hothers part hpart
  · rw [hjoined, joined_cons, joined_cons, hideUuids_slashed,
      hideNumbers_append (hkept first List.mem_cons_self), hideNumbers_slashed _ hothers]

/-- What has no slash in it and begins a text is within its first segment. -/
theorem prefix_segment {part s first : List Char} {others : List (List Char)}
    (hfree : '/' ∉ part) (h : part <+: s) (hs : segments '/' s = first :: others) :
    part <+: first := by
  obtain ⟨-, -, hjoined⟩ := Text.segments_eq_iff.1 hs
  rw [joined_cons] at hjoined
  rcases List.prefix_or_prefix_of_prefix h (Text.prefix_of_segments hs) with hpart | ⟨more, rfl⟩
  · exact hpart
  -- Whatever came after the segment would begin with a slash.
  rw [hjoined, List.prefix_append_right_inj] at h
  rcases more with - | ⟨c, more⟩
  · exact (List.append_nil first).symm ▸ List.prefix_rfl
  · rcases others with - | ⟨next, others⟩
    · cases List.prefix_nil.1 h
    · obtain rfl := (List.cons_prefix_cons.1 h).1
      exact absurd (List.mem_append_right _ List.mem_cons_self) hfree

/-- What has no slash in it is within a segment. -/
theorem exists_segment_of_infix {part s : List Char} (hfree : '/' ∉ part) (h : part <:+: s) :
    ∃ segment ∈ segments '/' s, part <:+: segment := by
  induction s with
  | nil => exact ⟨[], List.mem_singleton_self _, h⟩
  | cons c rest ih =>
    rcases hsegments : segments '/' (c :: rest) with - | ⟨first, others⟩
    · exact absurd hsegments (Text.segments_ne_nil _ _)
    rcases List.infix_cons_iff.1 h with hstart | hrest
    · exact ⟨first, List.mem_cons_self, (prefix_segment hfree hstart hsegments).isInfix⟩
    · obtain ⟨segment, hmem, hpart⟩ := ih hrest
      rw [segments] at hsegments
      split at hsegments
      · rw [← hsegments]
        exact ⟨segment, List.mem_cons_of_mem _ hmem, hpart⟩
      · split at hsegments
        · next hnil => exact absurd hnil (Text.segments_ne_nil '/' rest)
        · next start more hmore =>
          rw [hmore] at hmem
          obtain ⟨rfl, rfl⟩ := List.cons.inj hsegments
          rcases List.mem_cons.1 hmem with rfl | hmem
          · exact ⟨_, List.mem_cons_self, List.infix_cons hpart⟩
          · exact ⟨segment, List.mem_cons_of_mem _ hmem, hpart⟩

theorem IsUuid.not_mem_slash {s : List Char} (h : IsUuid s) : '/' ∉ s := by
  obtain @⟨a, b, c, d, e, -, hdigits⟩ := h
  intro hmem
  have hslash : ∀ group ∈ [a, b, c, d, e], '/' ∉ group := fun group hgroup hmem ↦
    absurd (hdigits group hgroup '/' hmem) (by decide)
  simp only [List.forall_mem_cons] at hslash
  simp [joined, List.intercalate_cons_cons, hslash] at hmem

theorem IsUuid.length_eq {s : List Char} (h : IsUuid s) : s.length = 36 := by
  obtain @⟨a, b, c, d, e, ⟨ha, hb, hc, hd, he⟩, -⟩ := h
  simp [joined, List.intercalate_cons_cons, ha, hb, hc, hd, he]

/-- The segments of a path, which are what stands after each slash. -/
def segmentsOf (path : String) : List (List Char) := (segments '/' path.toList).tail

/-- A label that is not cut short has everything in it. -/
theorem toList_ofPath {path : String} (h : (ofPath path).length < maxLength) :
    (ofPath path).toList = hideNumbers (hideUuids path.toList) := by
  rw [ofPath, String.length_ofList, List.length_take] at h
  rw [ofPath, String.toList_ofList, List.take_of_length_le (by omega)]

theorem segmentsOf_ofPath {path : String} (h : (ofPath path).length < maxLength) :
    segmentsOf (ofPath path) = redact ((segmentsOf path).map hideUuids) := by
  rcases hpath : segments '/' path.toList with - | ⟨first, others⟩
  · exact absurd hpath (Text.segments_ne_nil _ _)
  · rw [segmentsOf, segmentsOf, toList_ofPath h, segments_hidden hpath, hpath]
    rfl

/-- **No UUID is left in a label** that is not cut short. -/
theorem not_isUuid_of_infix_ofPath {path : String} (h : (ofPath path).length < maxLength)
    {part : List Char} (hpart : part <:+: (ofPath path).toList) : ¬ IsUuid part := by
  intro huuid
  rw [toList_ofPath h] at hpart
  obtain ⟨segment, hsegment, hwithin⟩ := exists_segment_of_infix huuid.not_mem_slash hpart
  rcases hpath : segments '/' path.toList with - | ⟨first, others⟩
  · exact absurd hpath (Text.segments_ne_nil _ _)
  rw [segments_hidden hpath] at hsegment
  rcases List.mem_cons.1 hsegment with rfl | hsegment
  · exact not_isUuid_of_infix hwithin huuid
  rcases mem_redact hsegment with rfl | hsegment
  · exact absurd (huuid.length_eq ▸ hwithin.length_le) (by decide)
  · obtain ⟨other, -, rfl⟩ := List.mem_map.1 hsegment
    exact not_isUuid_of_infix hwithin huuid

theorem numbersInRow_map_hideUuids (parts : List (List Char)) :
    NumbersInRow (parts.map hideUuids) ↔ NumbersInRow parts := by
  constructor
  · rintro ⟨a, b, hmapped, ha, hb⟩
    obtain ⟨row, hrow, hmap⟩ := List.infix_map_iff.1 hmapped
    rcases row with - | ⟨first, - | ⟨second, - | ⟨third, rest⟩⟩⟩ <;> cases hmap
    exact ⟨first, second, hrow, (isNumber_hideUuids_iff first).1 ha,
      (isNumber_hideUuids_iff second).1 hb⟩
  · rintro ⟨a, b, hrow, ha, hb⟩
    exact ⟨hideUuids a, hideUuids b, hrow.map hideUuids, (isNumber_hideUuids_iff a).2 ha,
      (isNumber_hideUuids_iff b).2 hb⟩

/-- **What a path label hides.** It has at most 50 characters, and unless it was cut short to that:
there is no UUID in it, wherever in the path they were; there is a number among its segments exactly
if two numbers stand next to each other in the path; and each that is left stands right after one
that was hidden. -/
theorem ofPath_hides (path : String) : (ofPath path).length ≤ maxLength ∧
    ((ofPath path).length < maxLength →
      (∀ part, part <:+: (ofPath path).toList → ¬ IsUuid part) ∧
      ((∃ segment ∈ segmentsOf (ofPath path), IsNumber segment) ↔
        NumbersInRow (segmentsOf path)) ∧
      ∀ before number after, segmentsOf (ofPath path) = before ++ number :: after →
        IsNumber number → before.getLast? = some placeholder) := by
  refine ⟨length_ofPath_le path, fun hwhole ↦
    ⟨fun part ↦ not_isUuid_of_infix_ofPath hwhole, ?_, fun before number after h ↦ ?_⟩⟩
  · rw [segmentsOf_ofPath hwhole, exists_isNumber_redact_iff, numbersInRow_map_hideUuids]
  · rw [segmentsOf_ofPath hwhole] at h
    exact getLast?_eq_of_redact_eq h

/-- **Not every number is hidden**: of two in a row the second is left. -/
theorem not_forall_ofPath_hides : ¬ ∀ path : String, (ofPath path).length < maxLength →
    ∀ segment ∈ segmentsOf (ofPath path), ¬ IsNumber segment := by
  intro hall
  have hlabel : ofPath "/items/1/2" = "/items/\x7bid\x7d/2" := by decide +kernel
  exact hall "/items/1/2" (by rw [hlabel]; decide) ['2'] (by rw [hlabel]; decide) (by decide)

end Licensing.PathLabel
