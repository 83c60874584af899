import Licensing.Proofs.ApiKey.Credential

/-!
# Keys issued and keys accepted

Issuing draws the parts of a key and writes them behind the scheme. Accepting trims what is
presented, splits it and holds it against the format. All that the two have in common is the format,
which nobody checks. `CredentialFormat.WellFormed` is exactly what it takes for them to agree
(`GeneratedKey.accepted_iff`): a key issued under any other format is malformed to whoever is to
accept it.

* A scheme with a delimiter makes for too many segments, since trimming takes no delimiter away
  (`parse_assemble_of_delimited`).
* A scheme that starts with a blank is trimmed, and what is left starts with no blank
  (`parse_assemble_of_padded`).
* Under every other scheme the segments are the scheme and the parts that were drawn, and all that
  can be wrong is that a part is empty (`parse_assemble_eq`).

The main result is put together from these three by cases on the scheme. It needs of a drawn part
only that it is letters and digits (`Drawn`), so neither the alphabet nor how bytes are turned into
letters comes into it.
-/

namespace Licensing

/-! ### Trimming and splitting -/

namespace Text

/-- The first segment is what the text starts with. -/
theorem prefix_of_segments {sep : Char} {s first : List Char} {others : List (List Char)}
    (h : segments sep s = first :: others) : first <+: s := by
  induction s generalizing first others with
  | nil =>
    cases h
    exact List.nil_prefix
  | cons c rest ih =>
    rw [segments] at h
    split at h
    · cases h
      exact List.nil_prefix
    · split at h
      · next hnil => exact absurd hnil (segments_ne_nil sep rest)
      · next hrest =>
        cases h
        exact List.prefix_cons_inj c |>.2 (ih hrest)

theorem count_dropWhile_isBlank {c : Char} (hc : isBlank c = false) (s : List Char) :
    (s.dropWhile isBlank).count c = s.count c := by
  induction s with
  | nil => rfl
  | cons d rest ih =>
    cases hd : isBlank d with
    | true =>
      have hne : d ≠ c := by
        rintro rfl
        exact absurd hd (Bool.eq_false_iff.1 hc)
      rw [List.dropWhile_cons_of_pos hd, ih, List.count_cons_of_ne hne]
    | false => rw [List.dropWhile_cons_of_neg (Bool.eq_false_iff.1 hd)]

/-- Trimming takes nothing away but blanks. -/
theorem count_trim {c : Char} (hc : isBlank c = false) (s : List Char) :
    (trim s).count c = s.count c := by
  rw [trim, trimEnd, List.count_reverse, count_dropWhile_isBlank hc, List.count_reverse, trimStart,
    count_dropWhile_isBlank hc]

/-- What is left after trimming starts with no blank. -/
theorem isBlank_of_prefix_trim {s start : List Char} {c : Char} (h : c :: start <+: trim s) :
    isBlank c = false := by
  have hend : trim s <+: trimStart s := by
    rw [← List.reverse_suffix, trim, trimEnd, List.reverse_reverse]
    exact List.dropWhile_suffix _
  obtain ⟨rest, hrest⟩ := h.trans hend
  exact isBlank_head_trimStart hrest.symm

end Text

/-! ### Accepting what was assembled -/

namespace CredentialFormat

variable {format : CredentialFormat} {lookup secret : String}

/-- What is not all blank is accepted or malformed. -/
theorem parse_eq_malformed {text : String} (hne : Text.trim text.toList ≠ [])
    (h : ∀ credential, format.parse text ≠ .ok credential) :
    format.parse text = .error .malformed := by
  simp only [parse, if_neg hne] at h ⊢
  split
  · split
    · next hsegments hfits =>
      rw [hsegments] at h
      simp only [if_pos hfits] at h
      exact absurd rfl (h _)
    · rfl
  · rfl

/-- No delimiter of a key is trimmed away, and there are two at least. -/
theorem count_trim_assemble (format : CredentialFormat) (lookup secret : String) :
    (Text.trim (format.assemble lookup secret).toList).count delimiter =
      format.scheme.toList.count delimiter + lookup.toList.count delimiter +
        secret.toList.count delimiter + 2 := by
  rw [Text.count_trim (by decide), toList_assemble]
  simp only [List.count_append, List.count_cons_self]
  omega

theorem trim_assemble_ne_nil (format : CredentialFormat) (lookup secret : String) :
    Text.trim (format.assemble lookup secret).toList ≠ [] := by
  intro hnil
  have hcount := format.count_trim_assemble lookup secret
  rw [hnil, List.count_nil] at hcount
  omega

/-- A key has too many segments if there is a delimiter in its scheme. -/
theorem parse_assemble_of_delimited (hscheme : delimiter ∈ format.scheme.toList) :
    format.parse (format.assemble lookup secret) = .error .malformed := by
  refine parse_eq_malformed (format.trim_assemble_ne_nil lookup secret) fun credential hok ↦ ?_
  obtain ⟨_, _, hsegments, -⟩ := parse_eq_ok_iff.1 hok
  have hlength := Text.length_segments delimiter
    (Text.trim (format.assemble lookup secret).toList)
  have hthree : 3 = _ := hsegments ▸ hlength
  have hpos : 0 < format.scheme.toList.count delimiter := List.count_pos_iff.2 hscheme
  rw [count_trim_assemble] at hthree
  omega

/-- A key loses the blanks that its scheme starts with. -/
theorem parse_assemble_of_padded {c : Char} {rest : List Char}
    (hscheme : format.scheme.toList = c :: rest) (hblank : Text.isBlank c = true) :
    format.parse (format.assemble lookup secret) = .error .malformed := by
  refine parse_eq_malformed (format.trim_assemble_ne_nil lookup secret) fun credential hok ↦ ?_
  obtain ⟨_, _, hsegments, -⟩ := parse_eq_ok_iff.1 hok
  rw [hscheme] at hsegments
  have hkept := Text.isBlank_of_prefix_trim (Text.prefix_of_segments hsegments)
  exact absurd hblank (Bool.eq_false_iff.1 hkept)

/-- **Under a scheme that is neither delimited nor padded, only empty parts are malformed.** -/
theorem parse_assemble_eq (hundelimited : delimiter ∉ format.scheme.toList)
    (hunpadded : ∀ c rest, format.scheme.toList = c :: rest → Text.isBlank c = false)
    (hlookup : ∀ c ∈ lookup.toList, c.isAlphanum = true)
    (hsecret : ∀ c ∈ secret.toList, c.isAlphanum = true)
    (hlength : lookup.toList.length = format.lookupLength) :
    format.parse (format.assemble lookup secret) =
      if lookup.toList ≠ [] ∧ secret.toList ≠ [] then
        .ok ⟨format.assemble lookup secret, lookup⟩
      else .error .malformed := by
  have htrim := trim_assemble hunpadded lookup hsecret
  have hsegments := segments_assemble hundelimited hlookup hsecret
  split
  · next hne =>
    refine parse_eq_ok_iff.2 ⟨lookup.toList, secret.toList, by rw [htrim, hsegments],
      ⟨hlength, isPart_iff.2 ⟨hne.1, hlookup⟩, isPart_iff.2 ⟨hne.2, hsecret⟩⟩, ?_⟩
    rw [Text.trimmed, htrim, String.ofList_toList, String.ofList_toList]
  · next hempty =>
    refine parse_eq_malformed (format.trim_assemble_ne_nil lookup secret) fun credential hok ↦ ?_
    obtain ⟨_, _, hfound, ⟨-, hpart, hpart'⟩, -⟩ := parse_eq_ok_iff.1 hok
    rw [htrim, hsegments] at hfound
    cases hfound
    exact hempty ⟨(isPart_iff.1 hpart).1, (isPart_iff.1 hpart').1⟩

end CredentialFormat

/-! ### Accepting what was drawn -/

namespace GeneratedKey

/-- The part is what was to be drawn: letters and digits, as many as the format says. -/
structure Drawn (length : Nat) (part : String) : Prop where
  length_eq : part.toList.length = length
  isAlphanum : ∀ c ∈ part.toList, c.isAlphanum = true

theorem Drawn.ne_nil_iff {length : Nat} {part : String} (h : Drawn length part) :
    part.toList ≠ [] ↔ 1 ≤ length := by
  rw [← h.length_eq, Nat.one_le_iff_ne_zero]
  exact not_congr List.length_eq_zero_iff.symm

/-- **A key of drawn parts is accepted as itself, or malformed**, as the format decides. -/
theorem parse_assemble_of_drawn {format : CredentialFormat} {lookup secret : String}
    (hlookup : Drawn format.lookupLength lookup) (hsecret : Drawn format.secretLength secret) :
    format.WellFormed ∧ format.parse (format.assemble lookup secret) =
        .ok ⟨format.assemble lookup secret, lookup⟩ ∨
      ¬ format.WellFormed ∧ format.parse (format.assemble lookup secret) = .error .malformed := by
  by_cases hdelimited : CredentialFormat.delimiter ∈ format.scheme.toList
  · exact .inr ⟨fun hformat ↦ hformat.scheme_undelimited hdelimited,
      CredentialFormat.parse_assemble_of_delimited hdelimited⟩
  by_cases hunpadded : ∀ c rest, format.scheme.toList = c :: rest → Text.isBlank c = false
  · have hparse := CredentialFormat.parse_assemble_eq hdelimited hunpadded hlookup.isAlphanum
      hsecret.isAlphanum hlookup.length_eq
    split at hparse
    · next hne =>
      exact .inl ⟨⟨hdelimited, hunpadded, hlookup.ne_nil_iff.1 hne.1,
        hsecret.ne_nil_iff.1 hne.2⟩, hparse⟩
    · next hempty =>
      exact .inr ⟨fun hformat ↦ hempty ⟨hlookup.ne_nil_iff.2 hformat.lookup_pos,
        hsecret.ne_nil_iff.2 hformat.secret_pos⟩, hparse⟩
  · refine .inr ⟨fun hformat ↦ hunpadded hformat.scheme_unpadded, ?_⟩
    simp only [Classical.not_forall, Bool.not_eq_false] at hunpadded
    obtain ⟨c, rest, hscheme, hblank⟩ := hunpadded
    exact CredentialFormat.parse_assemble_of_padded hscheme hblank

/-- **Keys issued and keys accepted agree.** Take any format and any source of random bytes from
which a key is drawn. Its parts are letters and digits, as many as the format says, and what is
stored is the hash of the key. It is accepted, with the lookup part that was drawn and with the whole
key as what is to be hashed, exactly if the scheme of the format has no delimiter and does not start
with a blank and neither part is empty. Else it is malformed. -/
theorem accepted_iff {format : CredentialFormat} {generated : GeneratedKey}
    {source rest : List UInt8} (h : generate? format source = some (generated, rest)) :
    (∃ secret, generated.key = format.assemble generated.lookup secret ∧
      Drawn format.lookupLength generated.lookup ∧ Drawn format.secretLength secret) ∧
    generated.hash = hashKey generated.key ∧
    (format.parse generated.key = .ok ⟨generated.key, generated.lookup⟩ ↔ format.WellFormed) ∧
    (¬ format.WellFormed → format.parse generated.key = .error .malformed) := by
  obtain ⟨secret, left, hlookup, hsecret, hkey, hhash⟩ := exists_parts_of_generate? h
  have hlookup : Drawn format.lookupLength generated.lookup :=
    ⟨(of_part? hlookup).1, (of_part? hlookup).2⟩
  have hsecret : Drawn format.secretLength secret := ⟨(of_part? hsecret).1, (of_part? hsecret).2⟩
  refine ⟨⟨secret, hkey, hlookup, hsecret⟩, hhash, ?_⟩
  rw [hkey]
  rcases parse_assemble_of_drawn hlookup hsecret with ⟨hformat, hok⟩ | ⟨hformat, hmalformed⟩
  · exact ⟨iff_of_true hok hformat, fun hnot ↦ absurd hformat hnot⟩
  · rw [hmalformed]
    exact ⟨iff_of_false nofun hformat, fun _ ↦ rfl⟩

/-- Keys of three and one letters and digits. -/
def brief (scheme : String) : CredentialFormat := ⟨scheme, 3, 1⟩

/-- The first block of random bytes yields no letter and no digit, so a second one is drawn. Under
the scheme "k" the key is accepted, under " k" it is malformed. -/
theorem accepted_iff_brief :
    (generate? (brief "k") [255, 255, 255, 0, 0, 0, 4] = some (ofParts (brief "k") "AAA" "B", []) ∧
      (brief "k").parse (ofParts (brief "k") "AAA" "B").key =
        .ok ⟨(ofParts (brief "k") "AAA" "B").key, "AAA"⟩) ∧
    (generate? (brief " k") [255, 255, 255, 0, 0, 0, 4] =
        some (ofParts (brief " k") "AAA" "B", []) ∧
      (brief " k").parse (ofParts (brief " k") "AAA" "B").key = .error .malformed) := by
  -- The parts are drawn by a recursion on what is left of the source, so it takes all unfolding.
  have hplain : generate? (brief "k") [255, 255, 255, 0, 0, 0, 4] =
      some (ofParts (brief "k") "AAA" "B", []) := by with_unfolding_all rfl
  have hpadded : generate? (brief " k") [255, 255, 255, 0, 0, 0, 4] =
      some (ofParts (brief " k") "AAA" "B", []) := by with_unfolding_all rfl
  refine ⟨⟨hplain, (accepted_iff hplain).2.2.1.2 ⟨by decide, ?_, by decide, by decide⟩⟩,
    hpadded, (accepted_iff hpadded).2.2.2 fun hformat ↦ ?_⟩
  · rintro c rest ⟨⟩
    decide
  · exact absurd (hformat.scheme_unpadded ' ' ['k'] rfl) (by decide)

end GeneratedKey

end Licensing
