import Licensing.ApiKey.Generator

/-!
# Keys that can be read back

A key that was drawn fits its own format: it parses to itself and to the lookup part that is stored
with it (`GeneratedKey.parse_of_generate?`). That needs little of a format
(`CredentialFormat.WellFormed`): a scheme that does not contain the delimiter or start with a blank,
and parts that are not empty. The drawn parts are letters and digits, so they are in nobody's way
when the key is trimmed and split (`CredentialFormat.segments_assemble`), and this is all that is
used of them: from which bytes they are drawn, and how many of those are passed over, does not come
into it.

Keys are stored by their SHA-256 hash (`hashKey_eq`). Comparing the bytes of two hashes is comparing
the hashes (`verifyKey_eq_true_iff`), although every byte is looked at whatever the others say.
-/

namespace Licensing

/-! ### Splitting and trimming -/

namespace Text

theorem segments_of_not_mem {sep : Char} {s : List Char} (h : sep ∉ s) : segments sep s = [s] := by
  induction s with
  | nil => rfl
  | cons c rest ih =>
    rw [List.mem_cons, not_or] at h
    rw [segments, if_neg (Ne.symm h.1), ih h.2]

/-- A text without the separator is the first segment of what it starts. -/
theorem segments_append_cons {sep : Char} {s : List Char} (h : sep ∉ s) (rest : List Char) :
    segments sep (s ++ sep :: rest) = s :: segments sep rest := by
  induction s with
  | nil => rw [List.nil_append, segments, if_pos rfl]
  | cons c s ih =>
    rw [List.mem_cons, not_or] at h
    rw [List.cons_append, segments, if_neg (Ne.symm h.1), ih h.2]

theorem dropWhile_isBlank_of_head {s : List Char}
    (h : ∀ c rest, s = c :: rest → isBlank c = false) : s.dropWhile isBlank = s := by
  cases s with
  | nil => rfl
  | cons c rest => rw [List.dropWhile_cons_of_neg (by simp [h c rest rfl])]

/-- A text that neither starts nor ends with a blank is left as it is. -/
theorem trim_of_ends {s : List Char} (hfirst : ∀ c rest, s = c :: rest → isBlank c = false)
    (hlast : ∀ c rest, s.reverse = c :: rest → isBlank c = false) : trim s = s := by
  rw [trim, trimStart, dropWhile_isBlank_of_head hfirst, trimEnd, dropWhile_isBlank_of_head hlast,
    List.reverse_reverse]

end Text

/-- The codes of letters and digits. -/
theorem toNat_of_isAlphanum {c : Char} (h : c.isAlphanum = true) :
    (65 ≤ c.toNat ∧ c.toNat ≤ 90 ∨ 97 ≤ c.toNat ∧ c.toNat ≤ 122) ∨
      48 ≤ c.toNat ∧ c.toNat ≤ 57 := by
  have hranges : ((decide (65 ≤ c.val ∧ c.val ≤ 90) ||
      decide (97 ≤ c.val) && decide (c.val ≤ 122)) ||
      decide (48 ≤ c.val) && decide (c.val ≤ 57)) = true := h
  simp only [Bool.or_eq_true, Bool.and_eq_true, decide_eq_true_eq] at hranges
  exact hranges

/-- Letters and digits are no blanks. -/
theorem isBlank_of_isAlphanum {c : Char} (h : c.isAlphanum = true) : Text.isBlank c = false := by
  have hcode := toNat_of_isAlphanum h
  unfold Text.isBlank
  generalize c.toNat = n at hcode ⊢
  have hlow : ¬ n ≤ 32 := by omega
  have hhigh : n < 128 := by omega
  simp
  omega

/-- Nor are they delimiters. -/
theorem ne_delimiter_of_isAlphanum {c : Char} (h : c.isAlphanum = true) :
    c ≠ CredentialFormat.delimiter := by
  rintro rfl
  revert h
  decide

/-! ### Assembling and parsing -/

namespace CredentialFormat

/-- The format of keys that can be read back. -/
structure WellFormed (format : CredentialFormat) : Prop where
  scheme_undelimited : delimiter ∉ format.scheme.toList
  scheme_unpadded : ∀ c rest, format.scheme.toList = c :: rest → Text.isBlank c = false
  lookup_pos : 1 ≤ format.lookupLength
  secret_pos : 1 ≤ format.secretLength

variable {format : CredentialFormat}

theorem isPart_iff {s : List Char} :
    isPart s = true ↔ s ≠ [] ∧ ∀ c ∈ s, c.isAlphanum = true := by
  rw [isPart, Bool.and_eq_true, List.all_eq_true, decide_eq_true_iff]

theorem toList_assemble (format : CredentialFormat) (lookup secret : String) :
    (format.assemble lookup secret).toList =
      format.scheme.toList ++ delimiter :: (lookup.toList ++ delimiter :: secret.toList) := by
  rw [assemble, String.toList_ofList]

/-- There is nothing to trim off a key, unless its scheme starts with a blank. -/
theorem trim_assemble (hscheme : ∀ c rest, format.scheme.toList = c :: rest → Text.isBlank c = false)
    (lookup : String) {secret : String} (hsecret : ∀ c ∈ secret.toList, c.isAlphanum = true) :
    Text.trim (format.assemble lookup secret).toList =
      (format.assemble lookup secret).toList := by
  rw [toList_assemble]
  refine Text.trim_of_ends (fun c rest heq ↦ ?_) fun c rest heq ↦ ?_
  · -- It starts as the scheme does, or with a delimiter where the scheme is empty.
    rcases hstart : format.scheme.toList with - | ⟨d, others⟩
    · rw [hstart] at heq
      cases heq
      decide
    · rw [hstart] at heq
      cases heq
      exact hscheme _ _ hstart
  · -- It ends as the secret does, or with a delimiter where the secret is empty.
    simp only [List.reverse_append, List.reverse_cons, List.append_assoc] at heq
    rcases hlast : secret.toList.reverse with - | ⟨d, others⟩
    · rw [hlast] at heq
      cases heq
      decide
    · rw [hlast] at heq
      cases heq
      have hmem : c ∈ secret.toList.reverse := hlast ▸ List.mem_cons_self
      exact isBlank_of_isAlphanum (hsecret c (List.mem_reverse.1 hmem))

/-- **A text parses exactly if its three segments, once it is trimmed, fit the format.** -/
theorem parse_eq_ok_iff {text : String} {credential : Credential} :
    format.parse text = .ok credential ↔ ∃ lookup secret,
      Text.segments delimiter (Text.trim text.toList) = [format.scheme.toList, lookup, secret] ∧
        (lookup.length = format.lookupLength ∧ isPart lookup = true ∧ isPart secret = true) ∧
        credential = ⟨Text.trimmed text, String.ofList lookup⟩ := by
  simp only [parse, Text.trimmed]
  constructor
  · intro h
    split at h
    · cases h
    · split at h
      · next scheme lookup secret hsegments =>
        split at h
        · next hfits =>
          cases h
          obtain ⟨rfl, hparts⟩ := hfits
          exact ⟨lookup, secret, hsegments, hparts, rfl⟩
        · cases h
      · cases h
  · rintro ⟨lookup, secret, hsegments, hparts, rfl⟩
    have hne : Text.trim text.toList ≠ [] := by
      intro hnil
      rw [hnil] at hsegments
      have hlength : 1 = 3 := congrArg List.length hsegments
      cases hlength
    simp only [if_neg hne, hsegments]
    rw [if_pos ⟨trivial, hparts⟩]

/-- What is kept of a key that parses is the key without the blanks around it. -/
theorem raw_of_parse {text : String} {credential : Credential}
    (h : format.parse text = .ok credential) : credential.raw = Text.trimmed text := by
  obtain ⟨lookup, secret, -, -, rfl⟩ := parse_eq_ok_iff.1 h
  rfl

/-- The segments of a key are its parts. -/
theorem segments_assemble (hscheme : delimiter ∉ format.scheme.toList) {lookup secret : String}
    (hlookup : ∀ c ∈ lookup.toList, c.isAlphanum = true)
    (hsecret : ∀ c ∈ secret.toList, c.isAlphanum = true) :
    Text.segments delimiter (format.assemble lookup secret).toList =
      [format.scheme.toList, lookup.toList, secret.toList] := by
  have hundelimited : ∀ {s : List Char}, (∀ c ∈ s, c.isAlphanum = true) → delimiter ∉ s :=
    fun h hmem ↦ ne_delimiter_of_isAlphanum (h _ hmem) rfl
  rw [toList_assemble, Text.segments_append_cons hscheme,
    Text.segments_append_cons (hundelimited hlookup),
    Text.segments_of_not_mem (hundelimited hsecret)]

end CredentialFormat

/-! ### Drawing -/

namespace GeneratedKey

/-- What is drawn has its length, and is letters and digits. -/
theorem of_draw? {size length : Nat} {taken s : List Char} {source rest : List UInt8}
    (h : draw? size length taken source = some (s, rest))
    (htaken : ∀ c ∈ taken, c.isAlphanum = true) :
    s.length = length ∧ ∀ c ∈ s, c.isAlphanum = true := by
  fun_induction draw? size length taken source with
  | case1 taken source hlength =>
    obtain ⟨rfl, -⟩ := Prod.mk.inj (Option.some.inj h)
    exact ⟨List.length_take_of_le hlength, fun c hc ↦ htaken c (List.mem_of_mem_take hc)⟩
  | case2 => cases h
  | case3 taken source hshort hsource ih =>
    refine ih h fun c hc ↦ ?_
    rcases List.mem_append.1 hc with hold | hnew
    · exact htaken c hold
    · exact (List.mem_filter.1 hnew).2

theorem of_part? {length : Nat} {part : String} {source rest : List UInt8}
    (h : part? length source = some (part, rest)) :
    part.toList.length = length ∧ ∀ c ∈ part.toList, c.isAlphanum = true := by
  obtain ⟨⟨s, left⟩, hdraw, heq⟩ := Option.map_eq_some_iff.1 h
  obtain ⟨rfl, -⟩ := Prod.mk.inj heq
  rw [String.toList_ofList]
  exact of_draw? hdraw nofun

/-- A key that was drawn is made of parts that were drawn, and is stored by its hash. -/
theorem exists_parts_of_generate? {format : CredentialFormat} {generated : GeneratedKey}
    {source rest : List UInt8} (h : generate? format source = some (generated, rest)) :
    ∃ secret left, part? format.lookupLength source = some (generated.lookup, left) ∧
      part? format.secretLength left = some (secret, rest) ∧
      generated.key = format.assemble generated.lookup secret ∧
      generated.hash = hashKey generated.key := by
  simp only [generate?, Option.bind_eq_bind, Option.bind_eq_some_iff] at h
  obtain ⟨⟨lookup, left⟩, hlookup, ⟨secret, left'⟩, hsecret, heq⟩ := h
  cases heq
  exact ⟨secret, left, hlookup, hsecret, rfl, rfl⟩

end GeneratedKey

/-! ### Comparing -/

/-- Bytes are gathered to zero exactly where there is no difference. -/
private theorem foldl_differences_eq_zero_iff (pairs : List (UInt8 × UInt8)) (seen : UInt8) :
    pairs.foldl (fun seen (x, y) ↦ seen ||| (x ^^^ y)) seen = 0 ↔
      seen = 0 ∧ ∀ pair ∈ pairs, pair.1 = pair.2 := by
  induction pairs generalizing seen with
  | nil => simp
  | cons pair pairs ih =>
    rw [List.foldl_cons, ih, UInt8.or_eq_zero_iff, UInt8.xor_eq_zero_iff, List.forall_mem_cons,
      and_assoc]

/-- **The comparison says what an equality test would.** -/
theorem sameBytes_eq_true_iff {a b : List UInt8} : sameBytes a b = true ↔ a = b := by
  rw [sameBytes, Bool.and_eq_true, beq_iff_eq, beq_iff_eq, foldl_differences_eq_zero_iff]
  constructor
  · rintro ⟨hlength, -, hsame⟩
    refine List.ext_getElem hlength fun i hi hi' ↦ ?_
    have hzip : i < (a.zip b).length := by
      rw [List.length_zip]
      exact Nat.lt_min.2 ⟨hi, hi'⟩
    exact hsame (a[i], b[i]) (List.mem_iff_getElem.2 ⟨i, hzip, List.getElem_zip⟩)
  · rintro rfl
    refine ⟨rfl, rfl, fun pair hpair ↦ ?_⟩
    obtain ⟨i, hi, rfl⟩ := List.mem_iff_getElem.1 hpair
    simp

namespace Text.Utf8

/-- Different texts have different bytes. -/
theorem encodeString_injective {s t : String} (h : encodeString s = encodeString t) : s = t := by
  have hbytes : s.toList.utf8Encode = t.toList.utf8Encode := congrArg List.toByteArray h
  rw [← String.toByteArray_ofList, ← String.toByteArray_ofList, String.toByteArray_inj,
    String.ofList_toList, String.ofList_toList] at hbytes
  exact hbytes

end Text.Utf8

/-- Keys are stored by their SHA-256 hash. -/
theorem hashKey_eq (key : String) : hashKey key = Crypto.sha256Hex key := rfl

theorem verifyKey_eq_true_iff {key storedHash : String} :
    verifyKey key storedHash = true ↔ hashKey key = storedHash := by
  rw [verifyKey, sameBytes_eq_true_iff]
  exact ⟨Text.Utf8.encodeString_injective, fun h ↦ h ▸ rfl⟩

end Licensing
