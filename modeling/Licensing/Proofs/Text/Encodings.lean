import Mathlib.Algebra.Ring.Nat
import Licensing.Text.Base64Url
import Licensing.Text.Decimal
import Licensing.Text.Hex
import Licensing.Text.Utf8

/-!
# Encodings and their inverses

Bytes are written in base64url, texts in UTF-8, numbers in digits. Whatever is written in one of
these forms is read back from it: `Base64Url.decode?_encode`, `Utf8.decode?_encode`,
`Hex.value?_fixed`. Bytes that are read as far as they go are read whole exactly if they are a text
(`Utf8.front_eq_iff`). Of decimal digits, what a reader needs to know is here: each is a digit, and
none but a zero starts with zero (`Decimal.eq_zero_of_head?_digits`).

The first two are inductions on what was written, three bytes at a time and one character at a time.
In UTF-8 a character takes one to four bytes, and the second one of three or four is in a range that
depends on the first. Each length has a lemma of its own (`Utf8.next_two`, `Utf8.next_three`,
`Utf8.next_four`), whose arithmetic shows that what a lead byte and its tails carry is in the range
that this length is for; overlong forms and surrogates do not come up.
-/

namespace Licensing.Text

/-! ### Base64url -/

namespace Base64Url

theorem value?_symbol : ∀ n < 64, value? (symbol n) = some n := by decide

theorem mapM_value?_cons {n : Nat} (hn : n < 64) {s : List Char} {values : List Nat}
    (h : s.mapM value? = some values) : (symbol n :: s).mapM value? = some (n :: values) := by
  rw [List.mapM_cons, value?_symbol n hn, h]
  rfl

/-- **Bytes are read back from their written form.** -/
theorem decode?_encode (bytes : List UInt8) : decode? (encode bytes) = some bytes := by
  fun_induction encode bytes with
  | case1 a b c rest n ih =>
    obtain ⟨values, hvalues, hrest⟩ := Option.bind_eq_some_iff.1 ih
    have ha := a.toNat_lt
    have hb := b.toNat_lt
    have hc := c.toNat_lt
    have hread := mapM_value?_cons (show n / 262144 < 64 by omega) <|
      mapM_value?_cons (show n / 4096 % 64 < 64 by omega) <|
      mapM_value?_cons (show n / 64 % 64 < 64 by omega) <|
      mapM_value?_cons (show n % 64 < 64 by omega) hvalues
    have hn : n / 262144 * 262144 + n / 4096 % 64 * 4096 + n / 64 % 64 * 64 + n % 64 = n := by
      omega
    rw [decode?, hread, Option.bind_some, ofValues?, hrest, hn, show n / 65536 = a.toNat by omega,
      show n / 256 % 256 = b.toNat by omega, show n % 256 = c.toNat by omega]
    simp only [UInt8.ofNat_toNat, Option.map_some]
  | case2 a b n =>
    have ha := a.toNat_lt
    have hb := b.toNat_lt
    have hread := mapM_value?_cons (show n / 1024 < 64 by omega) <|
      mapM_value?_cons (show n / 16 % 64 < 64 by omega) <|
      mapM_value?_cons (show n % 16 * 4 < 64 by omega) (List.mapM_nil (f := value?))
    have hn : n / 1024 * 1024 + n / 16 % 64 * 16 + n % 16 * 4 / 4 = n := by omega
    rw [decode?, hread]
    show ofValues? _ = _
    rw [ofValues?, if_pos (by omega), hn]
    show some [UInt8.ofNat (n / 256), UInt8.ofNat (n % 256)] = _
    rw [show n / 256 = a.toNat by omega, show n % 256 = b.toNat by omega]
    simp only [UInt8.ofNat_toNat]
  | case3 a =>
    have ha := a.toNat_lt
    have hread := mapM_value?_cons (show a.toNat / 4 < 64 by omega) <|
      mapM_value?_cons (show a.toNat % 4 * 16 < 64 by omega) (List.mapM_nil (f := value?))
    rw [decode?, hread]
    show ofValues? _ = _
    rw [ofValues?, if_pos (by omega),
      show a.toNat / 4 * 4 + a.toNat % 4 * 16 / 16 = a.toNat by omega, UInt8.ofNat_toNat]
  | case4 => rfl

end Base64Url

/-! ### UTF-8 -/

namespace Utf8

section Next

variable {b c d e : UInt8} {rest : List UInt8}

theorem isTail_iff : isTail b = true ↔ 0x80 ≤ b.toNat ∧ b.toNat ≤ 0xBF := by
  simp [isTail, UInt8.le_iff_toNat_le]

theorem between_iff (low high : UInt8) :
    (low ≤ b && b ≤ high) = true ↔ low.toNat ≤ b.toNat ∧ b.toNat ≤ high.toNat := by
  simp [UInt8.le_iff_toNat_le]

/-- The first of two bytes. -/
theorem lead_two (hb : 0xC2 ≤ b.toNat ∧ b.toNat ≤ 0xDF) : lead b = some (0x80, 0xBF, 1) :=
  if_pos ((between_iff 0xC2 0xDF).2 hb)

/-- The first of three bytes, and a second one that is neither overlong nor a surrogate. -/
theorem lead_three (hb : 0xE0 ≤ b.toNat ∧ b.toNat ≤ 0xEF) (hc : 0x80 ≤ c.toNat ∧ c.toNat ≤ 0xBF)
    (hlong : b.toNat = 0xE0 → 0xA0 ≤ c.toNat) (hsurrogate : b.toNat = 0xED → c.toNat ≤ 0x9F) :
    ∃ low high, lead b = some (low, high, 2) ∧ (low ≤ c && c ≤ high) = true := by
  by_cases hfirst : b.toNat = 0xE0
  · obtain rfl : b = 0xE0 := UInt8.toNat_inj.1 hfirst
    exact ⟨0xA0, 0xBF, rfl, (between_iff _ _).2 ⟨hlong hfirst, hc.2⟩⟩
  by_cases hpair : b.toNat = 0xED
  · obtain rfl : b = 0xED := UInt8.toNat_inj.1 hpair
    exact ⟨0x80, 0x9F, rfl, (between_iff _ _).2 ⟨hc.1, hsurrogate hpair⟩⟩
  · have hpast : ¬ b.toNat ≤ 0xDF := by omega
    have hnext : 0xE1 ≤ b.toNat := by omega
    refine ⟨0x80, 0xBF, ?_, (between_iff _ _).2 hc⟩
    simp [lead, UInt8.le_iff_toNat_le, ← UInt8.toNat_inj, hfirst, hpair, hpast, hnext, hb.2]

/-- The first of four bytes, and a second one that is neither overlong nor past the last code
point. -/
theorem lead_four (hb : 0xF0 ≤ b.toNat ∧ b.toNat ≤ 0xF4) (hc : 0x80 ≤ c.toNat ∧ c.toNat ≤ 0xBF)
    (hlong : b.toNat = 0xF0 → 0x90 ≤ c.toNat) (hlast : b.toNat = 0xF4 → c.toNat ≤ 0x8F) :
    ∃ low high, lead b = some (low, high, 3) ∧ (low ≤ c && c ≤ high) = true := by
  by_cases hfirst : b.toNat = 0xF0
  · obtain rfl : b = 0xF0 := UInt8.toNat_inj.1 hfirst
    exact ⟨0x90, 0xBF, rfl, (between_iff _ _).2 ⟨hlong hfirst, hc.2⟩⟩
  by_cases hend : b.toNat = 0xF4
  · obtain rfl : b = 0xF4 := UInt8.toNat_inj.1 hend
    exact ⟨0x80, 0x8F, rfl, (between_iff _ _).2 ⟨hc.1, hlast hend⟩⟩
  · have hpast : ¬ b.toNat ≤ 0xEF := by omega
    have hshort : ¬ b.toNat ≤ 0xDF := by omega
    have hpair : b.toNat ≠ 0xED := by omega
    have hover : b.toNat ≠ 0xE0 := by omega
    have hrange : 0xF1 ≤ b.toNat ∧ b.toNat ≤ 0xF3 := by omega
    refine ⟨0x80, 0xBF, ?_, (between_iff _ _).2 hc⟩
    simp [lead, UInt8.le_iff_toNat_le, ← UInt8.toNat_inj, hfirst, hpast, hshort, hpair, hover,
      hrange]

/-! A character of each length. -/

theorem next_one (h : b.toNat < 0x80) : next b rest = (some (Char.ofNat b.toNat), 0) :=
  if_pos (UInt8.lt_iff_toNat_lt.2 h)

theorem not_lt_of_le (h : 0x80 ≤ b.toNat) : ¬ b < 0x80 := fun hlt ↦
  Nat.not_lt.2 h (UInt8.lt_iff_toNat_lt.1 hlt)

theorem next_two (hb : 0xC2 ≤ b.toNat ∧ b.toNat ≤ 0xDF) (hc : 0x80 ≤ c.toNat ∧ c.toNat ≤ 0xBF) :
    next b (c :: rest) = (some (Char.ofNat (b.toNat % 32 * 64 + payload c)), 1) := by
  have hrange := (between_iff 0x80 0xBF).2 hc
  simp [next, not_lt_of_le (show 0x80 ≤ b.toNat by omega), lead_two hb, hrange]

theorem next_three (hb : 0xE0 ≤ b.toNat ∧ b.toNat ≤ 0xEF) (hc : 0x80 ≤ c.toNat ∧ c.toNat ≤ 0xBF)
    (hlong : b.toNat = 0xE0 → 0xA0 ≤ c.toNat) (hsurrogate : b.toNat = 0xED → c.toNat ≤ 0x9F)
    (hd : 0x80 ≤ d.toNat ∧ d.toNat ≤ 0xBF) :
    next b (c :: d :: rest) =
      (some (Char.ofNat (b.toNat % 16 * 4096 + payload c * 64 + payload d)), 2) := by
  obtain ⟨low, high, hlead, hrange⟩ := lead_three hb hc hlong hsurrogate
  simp only [next, not_lt_of_le (show 0x80 ≤ b.toNat by omega), hlead, hrange, isTail_iff.2 hd]
  rfl

theorem next_four (hb : 0xF0 ≤ b.toNat ∧ b.toNat ≤ 0xF4) (hc : 0x80 ≤ c.toNat ∧ c.toNat ≤ 0xBF)
    (hlong : b.toNat = 0xF0 → 0x90 ≤ c.toNat) (hlast : b.toNat = 0xF4 → c.toNat ≤ 0x8F)
    (hd : 0x80 ≤ d.toNat ∧ d.toNat ≤ 0xBF) (he : 0x80 ≤ e.toNat ∧ e.toNat ≤ 0xBF) :
    next b (c :: d :: e :: rest) =
      (some (Char.ofNat (b.toNat % 8 * 262144 + payload c * 4096 + payload d * 64 + payload e)),
        3) := by
  obtain ⟨low, high, hlead, hrange⟩ := lead_four hb hc hlong hlast
  simp only [next, not_lt_of_le (show 0x80 ≤ b.toNat by omega), hlead, hrange, isTail_iff.2 hd,
    isTail_iff.2 he]
  rfl

end Next

theorem toNat_ofNat {n : Nat} (h : n < 256) : (UInt8.ofNat n).toNat = n :=
  UInt8.toNat_ofNat_of_lt' h

/-- A continuation byte carries six bits. -/
theorem payload_tail (n : Nat) : payload (UInt8.ofNat (n % 64 + 128)) = n % 64 := by
  rw [payload, toNat_ofNat (by omega)]
  omega

theorem tail_range (n : Nat) : 0x80 ≤ (UInt8.ofNat (n % 64 + 128)).toNat ∧
    (UInt8.ofNat (n % 64 + 128)).toNat ≤ 0xBF := by
  rw [toNat_ofNat (by omega)]
  omega

/-- The bytes of a character are read as this character, whatever follows. -/
theorem next_utf8EncodeChar (c : Char) : ∃ b bytes, String.utf8EncodeChar c = b :: bytes ∧
    ∀ rest, next b (bytes ++ rest) = (some c, bytes.length) := by
  have hvalid : c.toNat < 0xD800 ∨ 0xDFFF < c.toNat ∧ c.toNat < 0x110000 := c.valid
  have hchar : Char.ofNat c.toNat = c := Char.ofNat_toNat c
  have hbytes : String.utf8EncodeChar c = _ := String.utf8EncodeChar.eq_1 c
  simp only [show c.val.toNat = c.toNat from rfl] at hbytes
  generalize c.toNat = n at hvalid hchar hbytes
  by_cases hone : n ≤ 0x7F
  · have hb := toNat_ofNat (show n < 256 by omega)
    refine ⟨_, [], hbytes.trans (if_pos hone), fun rest ↦ ?_⟩
    rw [next_one (by omega), hb, hchar]
    rfl
  rw [if_neg hone] at hbytes
  by_cases htwo : n ≤ 0x7FF
  · have hb := toNat_ofNat (show n / 64 % 32 + 192 < 256 by omega)
    refine ⟨_, [_], hbytes.trans (if_pos htwo), fun rest ↦ ?_⟩
    rw [List.singleton_append, next_two (by omega) (tail_range n), hb, payload_tail,
      show (n / 64 % 32 + 192) % 32 * 64 + n % 64 = n by omega, hchar]
    rfl
  rw [if_neg htwo] at hbytes
  by_cases hthree : n ≤ 0xFFFF
  · have hb := toNat_ofNat (show n / 4096 % 16 + 224 < 256 by omega)
    have hc := toNat_ofNat (show n / 64 % 64 + 128 < 256 by omega)
    refine ⟨_, [_, _], hbytes.trans (if_pos hthree), fun rest ↦ ?_⟩
    rw [List.cons_append, List.singleton_append, next_three (by omega) (tail_range _) (by omega)
      (by omega) (tail_range n), hb, payload_tail, payload_tail,
      show (n / 4096 % 16 + 224) % 16 * 4096 + n / 64 % 64 * 64 + n % 64 = n by omega, hchar]
    rfl
  · have hb := toNat_ofNat (show n / 262144 % 8 + 240 < 256 by omega)
    have hc := toNat_ofNat (show n / 4096 % 64 + 128 < 256 by omega)
    refine ⟨_, [_, _, _], hbytes.trans (if_neg hthree), fun rest ↦ ?_⟩
    rw [List.cons_append, List.cons_append, List.singleton_append, next_four (by omega)
      (tail_range _) (by omega) (by omega) (tail_range _) (tail_range n), hb, payload_tail,
      payload_tail, payload_tail, show (n / 262144 % 8 + 240) % 8 * 262144 +
        n / 4096 % 64 * 4096 + n / 64 % 64 * 64 + n % 64 = n by omega, hchar]
    rfl

theorem pieces_encode (s : List Char) : pieces (encode s) = s.map some := by
  induction s with
  | nil => rw [encode, List.flatMap_nil, pieces, List.map_nil]
  | cons c s ih =>
    obtain ⟨b, bytes, hbytes, hnext⟩ := next_utf8EncodeChar c
    have hencode : encode (c :: s) = b :: (bytes ++ encode s) := by
      rw [encode, List.flatMap_cons, hbytes, List.cons_append]
      rfl
    rw [hencode, pieces, hnext]
    show some c :: pieces ((bytes ++ encode s).drop bytes.length) = _
    rw [List.drop_left, ih, List.map_cons]

/-- **A text is read back from its bytes.** -/
theorem decode?_encode (s : List Char) : decode? (encode s) = some s := by
  rw [decode?, pieces_encode]
  induction s with
  | nil => rfl
  | cons c s ih =>
    rw [List.map_cons, List.mapM_cons, ih]
    rfl

theorem decode?_eq_some_iff {bytes : List UInt8} {s : List Char} :
    decode? bytes = some s ↔ pieces bytes = s.map some := by
  rw [decode?]
  generalize pieces bytes = found
  induction found generalizing s with
  | nil => cases s <;> simp
  | cons piece found ih =>
    rw [List.mapM_cons]
    cases piece with
    | none => cases s <;> simp
    | some c =>
      cases s with
      | nil => simp [Option.bind_eq_some_iff]
      | cons d s => simp [Option.bind_eq_some_iff, ih, and_left_comm]

/-- Reading as far as one can gets to the end exactly if all pieces are characters. -/
theorem frontAfter_eq_iff {read s : List Char} {bytes : List UInt8} :
    frontAfter read bytes = (s, true) ↔ ∃ t, pieces bytes = t.map some ∧ s = read.reverse ++ t := by
  fun_induction frontAfter read bytes with
  | case1 read =>
    constructor
    · rintro ⟨⟩
      exact ⟨[], by rw [pieces, List.map_nil], (List.append_nil _).symm⟩
    · rintro ⟨t, ht, rfl⟩
      rw [pieces] at ht
      rw [List.map_eq_nil_iff.1 ht.symm, List.append_nil]
  | case2 read b rest used hnext =>
    rw [pieces, hnext]
    refine iff_of_false nofun ?_
    rintro ⟨t, ht, -⟩
    cases t <;> cases ht
  | case3 read b rest c used hnext ih =>
    have hpieces : pieces (b :: rest) = some c :: pieces (rest.drop used) := by rw [pieces, hnext]
    rw [ih, hpieces]
    constructor
    · rintro ⟨t, ht, rfl⟩
      exact ⟨c :: t, congrArg (some c :: ·) ht, by simp⟩
    · rintro ⟨_ | ⟨d, t⟩, ht, rfl⟩
      · cases ht
      · obtain ⟨heq, hrest⟩ := List.cons.inj ht
        obtain rfl := Option.some.inj heq
        exact ⟨t, hrest, by simp⟩

/-- **What is read as far as one can is the whole text exactly if the bytes are one.** -/
theorem front_eq_iff {bytes : List UInt8} {s : List Char} :
    front bytes = (s, true) ↔ decode? bytes = some s := by
  rw [front, frontAfter_eq_iff, decode?_eq_some_iff]
  simp

end Utf8

/-! ### Digits -/

namespace Hex

theorem digit?_digit : ∀ n < 16, digit? (digit n) = some n := by decide

/-- A number is read back from enough of its digits. -/
theorem value?_fixed (width n : Nat) : value? (fixed width n) = some (n % 16 ^ width) := by
  induction width generalizing n with
  | zero => simp [value?, fixed, Nat.mod_one]
  | succ width ih =>
    have hprefix : (fixed width (n / 16)).foldlM (fun n c ↦ (digit? c).map (n * 16 + ·)) 0 =
        some (n / 16 % 16 ^ width) := ih (n / 16)
    rw [value?, fixed, List.foldlM_append, hprefix, Option.bind_eq_bind, Option.bind_some]
    rw [List.foldlM_cons, digit?_digit _ (Nat.mod_lt n (by decide))]
    show some (n / 16 % 16 ^ width * 16 + n % 16) = _
    rw [Nat.pow_succ', Nat.mod_mul, Nat.add_comm, Nat.mul_comm]

end Hex

namespace Decimal

theorem isDigit_digit (n : Nat) : (digit n).isDigit = true := by
  have hall : ∀ m < 10, (Char.ofNat ('0'.toNat + m)).isDigit = true := by decide
  exact hall _ (Nat.mod_lt n (by decide))

theorem valueOf_digit (n : Nat) : valueOf (digit n) = n % 10 := by
  have hall : ∀ m < 10, valueOf (Char.ofNat ('0'.toNat + m)) = m := by decide
  exact hall _ (Nat.mod_lt n (by decide))

theorem isDigit_of_mem_digits {n : Nat} {c : Char} (h : c ∈ digits n) : c.isDigit = true := by
  fun_induction digits n with
  | case1 n hn =>
    rw [List.mem_singleton.1 h]
    exact isDigit_digit n
  | case2 n hn ih =>
    rcases List.mem_append.1 h with hmem | hmem
    · exact ih hmem
    · rw [List.mem_singleton.1 hmem]
      exact isDigit_digit n

theorem digits_ne_nil (n : Nat) : digits n ≠ [] := by
  rw [digits]
  split <;> simp

/-- None but a zero starts with zero. -/
theorem eq_zero_of_head?_digits {n : Nat} (h : (digits n).head? = some '0') : n = 0 := by
  fun_induction digits n with
  | case1 n hn =>
    have hall : ∀ m < 10, Char.ofNat ('0'.toNat + m) = '0' → m = 0 := by decide
    have hzero := hall _ (Nat.mod_lt n (by decide)) (Option.some.inj h)
    omega
  | case2 n hn ih =>
    obtain ⟨first, others, hdigits⟩ := List.exists_cons_of_ne_nil (digits_ne_nil (n / 10))
    rw [hdigits] at h ih
    have := ih h
    omega

end Decimal

end Licensing.Text
