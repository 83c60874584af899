import Licensing.Proofs.ApiKey.Agreement

/-!
# The grammar of credentials

Which texts are read as credentials, said without splitting them: a credential is written as the
scheme, a lookup part and a secret (`CredentialFormat.Spells`). To split a text is to find the parts
that it was joined of (`Text.segments_eq_iff`), so a text that is written so is split into just
these parts, and into no others.

A format need not make sense. Under a scheme that has a delimiter, or with an empty lookup part,
nothing is a credential, and all that is presented is missing or malformed
(`CredentialFormat.parse_recognizes`).

`parse_recognizes` rests on a text having its parts in one way only (`HasParts.unique`) and on what
is read being a credential without the blanks around it (`parse_eq_ok_iff_spells`). Blanks are those
of Unicode, and letters and digits those of ASCII.
-/

namespace Licensing

/-! ### Splitting and joining -/

namespace Text

theorem segments_eq_splitOn (sep : Char) (s : List Char) : segments sep s = s.splitOn sep := by
  induction s with
  | nil => rw [segments, List.splitOn_nil]
  | cons c rest ih =>
    rw [segments, List.splitOn_cons_eq_if_modifyHead, ih]
    by_cases hc : c = sep
    · simp [hc]
    · rw [if_neg hc, if_neg (by simpa using hc)]
      rcases hsplit : rest.splitOn sep with - | ⟨first, others⟩
      · exact absurd hsplit (List.splitOn_ne_nil sep rest)
      · rfl

/-- No segment has the separator in it. -/
theorem not_mem_of_mem_segments {sep : Char} {s part : List Char} (h : part ∈ segments sep s) :
    sep ∉ part := by
  induction s generalizing part with
  | nil =>
    obtain rfl := List.mem_singleton.1 h
    exact List.not_mem_nil
  | cons c rest ih =>
    rw [segments] at h
    split at h
    · rcases List.mem_cons.1 h with rfl | hmem
      · exact List.not_mem_nil
      · exact ih hmem
    · next hc =>
      split at h
      · next hnil => exact absurd hnil (segments_ne_nil sep rest)
      · next first others hrest =>
        rw [hrest] at ih
        rcases List.mem_cons.1 h with rfl | hmem
        · exact List.not_mem_cons_of_ne_of_not_mem (Ne.symm hc) (ih List.mem_cons_self)
        · exact ih (List.mem_cons_of_mem _ hmem)

/-- **The segments are the parts that the text is joined of**: no others are free of the
separator. -/
theorem segments_eq_iff {sep : Char} {s : List Char} {parts : List (List Char)} :
    segments sep s = parts ↔
      parts ≠ [] ∧ (∀ part ∈ parts, sep ∉ part) ∧ s = joined [sep] parts := by
  constructor
  · rintro rfl
    refine ⟨segments_ne_nil sep s, fun part hpart ↦ not_mem_of_mem_segments hpart, ?_⟩
    rw [segments_eq_splitOn, joined, List.intercalate_splitOn]
  · rintro ⟨hne, hfree, rfl⟩
    rw [segments_eq_splitOn, joined, List.splitOn_intercalate sep hfree hne]

theorem trimmed_eq_empty_iff {text : String} : trimmed text = "" ↔ trim text.toList = [] := by
  rw [trimmed, String.ofList_eq_empty_iff]

end Text

/-! ### Texts of three parts -/

namespace CredentialFormat

/-- The text consists of three parts that are free of delimiters, with delimiters between them. -/
structure HasParts (text scheme lookup secret : String) : Prop where
  text_eq : text = scheme ++ "_" ++ lookup ++ "_" ++ secret
  scheme_free : delimiter ∉ scheme.toList
  lookup_free : delimiter ∉ lookup.toList
  secret_free : delimiter ∉ secret.toList

theorem hasParts_iff {text scheme lookup secret : String} :
    HasParts text scheme lookup secret ↔
      Text.segments delimiter text.toList = [scheme.toList, lookup.toList, secret.toList] := by
  have hjoined : text = scheme ++ "_" ++ lookup ++ "_" ++ secret ↔
      text.toList = Text.joined [delimiter] [scheme.toList, lookup.toList, secret.toList] := by
    rw [← String.toList_inj]
    simp [Text.joined, List.intercalate_cons_cons, delimiter]
  rw [Text.segments_eq_iff, ← hjoined]
  simp only [List.forall_mem_cons]
  constructor
  · rintro ⟨htext, hscheme, hlookup, hsecret⟩
    exact ⟨List.cons_ne_nil _ _, ⟨hscheme, hlookup, hsecret, nofun⟩, htext⟩
  · rintro ⟨-, ⟨hscheme, hlookup, hsecret, -⟩, htext⟩
    exact ⟨htext, hscheme, hlookup, hsecret⟩

/-- **A text has its parts in one way only.** -/
theorem HasParts.unique {text scheme lookup secret scheme' lookup' secret' : String}
    (h : HasParts text scheme lookup secret) (h' : HasParts text scheme' lookup' secret') :
    scheme' = scheme ∧ lookup' = lookup ∧ secret' = secret := by
  have heq := (hasParts_iff.1 h').symm.trans (hasParts_iff.1 h)
  simpa [String.toList_inj] using heq

/-! ### Credentials -/

/-- The text is a credential of the format: the scheme, a lookup part of as many letters and digits
as the format says, and a secret of one or more of them, with a delimiter before either. The letters
and digits are those of ASCII. -/
structure Spells (format : CredentialFormat) (text lookup secret : String) : Prop where
  text_eq : text = format.scheme ++ "_" ++ lookup ++ "_" ++ secret
  lookup_length : lookup.length = format.lookupLength
  lookup_isAlphanum : ∀ c ∈ lookup.toList, c.isAlphanum = true
  secret_ne_empty : secret ≠ ""
  secret_isAlphanum : ∀ c ∈ secret.toList, c.isAlphanum = true

variable {format : CredentialFormat}

/-- The parts of a credential are free of delimiters if its scheme is. -/
theorem Spells.hasParts {text lookup secret : String} (h : format.Spells text lookup secret)
    (hscheme : delimiter ∉ format.scheme.toList) :
    HasParts text format.scheme lookup secret where
  text_eq := h.text_eq
  scheme_free := hscheme
  lookup_free hmem := ne_delimiter_of_isAlphanum (h.lookup_isAlphanum _ hmem) rfl
  secret_free hmem := ne_delimiter_of_isAlphanum (h.secret_isAlphanum _ hmem) rfl

theorem Spells.assemble_eq {text lookup secret : String} (h : format.Spells text lookup secret) :
    format.assemble lookup secret = text := by
  rw [h.text_eq, ← String.toList_inj, toList_assemble]
  simp [delimiter]

/-- **What is read is a credential, without the blanks around it**, and every credential is read. -/
theorem parse_eq_ok_iff_spells {text : String} {credential : Credential} :
    format.parse text = .ok credential ↔
      (delimiter ∉ format.scheme.toList ∧ 1 ≤ format.lookupLength) ∧
        credential.raw = Text.trimmed text ∧
        ∃ secret, format.Spells (Text.trimmed text) credential.lookup secret := by
  rw [parse_eq_ok_iff]
  have htrim : (Text.trimmed text).toList = Text.trim text.toList := String.toList_ofList
  constructor
  · rintro ⟨lookup, secret, hsegments, ⟨hlength, hlookup, hsecret⟩, rfl⟩
    obtain ⟨hlookup, hlookup'⟩ := isPart_iff.1 hlookup
    obtain ⟨hsecret, hsecret'⟩ := isPart_iff.1 hsecret
    have hparts : HasParts (Text.trimmed text) format.scheme (String.ofList lookup)
        (String.ofList secret) := by
      rw [hasParts_iff, htrim, hsegments, String.toList_ofList, String.toList_ofList]
    refine ⟨⟨hparts.scheme_free, ?_⟩, rfl, String.ofList secret, hparts.text_eq, ?_, ?_, ?_, ?_⟩
    · rw [← hlength]
      exact List.length_pos_iff.2 hlookup
    · rwa [String.length_ofList]
    · rwa [String.toList_ofList]
    · rwa [Ne, String.ofList_eq_empty_iff]
    · rwa [String.toList_ofList]
  · rintro ⟨⟨hscheme, hpos⟩, hraw, secret, hspells⟩
    refine ⟨credential.lookup.toList, secret.toList, ?_, ⟨?_, ?_, ?_⟩, ?_⟩
    · rw [← htrim]
      exact hasParts_iff.1 (hspells.hasParts hscheme)
    · rw [String.length_toList]
      exact hspells.lookup_length
    · refine isPart_iff.2 ⟨fun hnil ↦ ?_, hspells.lookup_isAlphanum⟩
      have hzero : credential.lookup.length = 0 := by rw [← String.length_toList, hnil]; rfl
      rw [hspells.lookup_length] at hzero
      omega
    · refine isPart_iff.2 ⟨fun hnil ↦ hspells.secret_ne_empty ?_, hspells.secret_isAlphanum⟩
      exact String.toList_eq_nil_iff.1 hnil
    · rw [← hraw, String.ofList_toList]

/-- What is presented is missing if it is blank. -/
theorem parse_eq_missing_iff (format : CredentialFormat) {text : String} :
    format.parse text = .error .missing ↔ Text.trimmed text = "" := by
  rw [Text.trimmed_eq_empty_iff]
  simp only [parse]
  split
  · next hnil => simp [hnil]
  · next hne =>
    refine iff_of_false (fun h ↦ ?_) hne
    split at h
    · split at h <;> cases h
    · cases h

/-- **The parser accepts exactly its grammar.** Take any format and any text.

* The text is missing exactly if nothing is left of it without the blanks around it.
* It is accepted exactly if the scheme of the format has no delimiter, its lookup part is not empty,
  and what is left is a credential of the format.
* What is accepted is what is left. It is assembled of the scheme, the lookup part that is given
  with it and a secret, and there are no other three parts of which it consists.
* In every other case the text is malformed. -/
theorem parse_recognizes (format : CredentialFormat) (text : String) :
    (format.parse text = .error .missing ↔ Text.trimmed text = "") ∧
    ((∃ credential, format.parse text = .ok credential) ↔
      delimiter ∉ format.scheme.toList ∧ 1 ≤ format.lookupLength ∧
        ∃ lookup secret, format.Spells (Text.trimmed text) lookup secret) ∧
    (∀ credential, format.parse text = .ok credential →
      credential.raw = Text.trimmed text ∧
      ∃ secret, format.Spells (Text.trimmed text) credential.lookup secret ∧
        format.assemble credential.lookup secret = credential.raw ∧
        ∀ scheme' lookup' secret', HasParts (Text.trimmed text) scheme' lookup' secret' →
          scheme' = format.scheme ∧ lookup' = credential.lookup ∧ secret' = secret) ∧
    (format.parse text = .error .malformed ↔
      Text.trimmed text ≠ "" ∧
        ¬ (delimiter ∉ format.scheme.toList ∧ 1 ≤ format.lookupLength ∧
          ∃ lookup secret, format.Spells (Text.trimmed text) lookup secret)) := by
  have haccepted : (∃ credential, format.parse text = .ok credential) ↔
      delimiter ∉ format.scheme.toList ∧ 1 ≤ format.lookupLength ∧
        ∃ lookup secret, format.Spells (Text.trimmed text) lookup secret := by
    simp only [parse_eq_ok_iff_spells]
    constructor
    · rintro ⟨credential, ⟨hscheme, hpos⟩, -, secret, hspells⟩
      exact ⟨hscheme, hpos, credential.lookup, secret, hspells⟩
    · rintro ⟨hscheme, hpos, lookup, secret, hspells⟩
      exact ⟨⟨Text.trimmed text, lookup⟩, ⟨hscheme, hpos⟩, rfl, secret, hspells⟩
  refine ⟨format.parse_eq_missing_iff, haccepted, fun credential hok ↦ ?_, ?_⟩
  · obtain ⟨⟨hscheme, -⟩, hraw, secret, hspells⟩ := parse_eq_ok_iff_spells.1 hok
    refine ⟨hraw, secret, hspells, hspells.assemble_eq.trans hraw.symm, fun _ _ _ hparts ↦ ?_⟩
    exact (hspells.hasParts hscheme).unique hparts
  · rw [← haccepted, Ne, ← format.parse_eq_missing_iff]
    constructor
    · intro hmalformed
      rw [hmalformed]
      exact ⟨nofun, nofun⟩
    · rintro ⟨hpresent, hrefused⟩
      refine parse_eq_malformed (fun hnil ↦ hpresent ?_) fun credential hok ↦
        hrefused ⟨credential, hok⟩
      exact format.parse_eq_missing_iff.2 (Text.trimmed_eq_empty_iff.2 hnil)

/-- A credential with a no-break space before it and a line feed after it is read without them. With
a full-width digit in its secret it is malformed. -/
theorem parse_recognizes_padded :
    (parse {} "\u00a0lm_abCD1234_s3\n" = .ok ⟨"lm_abCD1234_s3", "abCD1234"⟩ ∧
      ∃ secret, assemble {} "abCD1234" secret = "lm_abCD1234_s3") ∧
    parse {} "lm_abCD1234_s\uff13" = .error .malformed ∧
      ¬ ∃ lookup secret, Spells {} (Text.trimmed "lm_abCD1234_s\uff13") lookup secret := by
  have hok : parse {} "\u00a0lm_abCD1234_s3\n" = .ok ⟨"lm_abCD1234_s3", "abCD1234"⟩ := rfl
  have hmalformed : parse {} "lm_abCD1234_s\uff13" = .error .malformed := rfl
  obtain ⟨-, -, hread, -⟩ := parse_recognizes {} "\u00a0lm_abCD1234_s3\n"
  obtain ⟨-, secret, -, hassembled, -⟩ := hread _ hok
  obtain ⟨-, -, -, hrefused⟩ := parse_recognizes {} "lm_abCD1234_s\uff13"
  refine ⟨⟨hok, secret, hassembled⟩, hmalformed, fun hspells ↦ ?_⟩
  exact (hrefused.1 hmalformed).2 ⟨by decide, by decide, hspells⟩

end CredentialFormat

end Licensing
