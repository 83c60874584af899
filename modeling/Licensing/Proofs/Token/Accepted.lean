import Mathlib.Data.List.Basic
import Licensing.Proofs.ApiKey.Credential
import Licensing.Proofs.Json.Record
import Licensing.Token.Verification

/-!
# Accepted tokens

A token that is accepted is a header, a payload and the signature of the two under the shared
secret, and what it was accepted for stands in the payload as such (`verify_genuine`). Of the
payload, that is every claim: a required one stands there exactly once, any other at most once, and
one that is configured to be checked is there and is equal (`Claims.Stated`). Of the header it is
the algorithm (`Algorithm.NamedIn`).

`verify_genuine` puts three things together:

* the checks one by one (`checks_of_verify`), since a token that is accepted has passed each;
* what the text of a header that is read must be (`Header.namedIn_of_readJson`) and what the text
  of a payload must be (`Claims.statedIn_of_readJson`), both from what a record is read from;
* what the rules for claims say of a time (`of_checkClaims`).

The header is a record, and records may be given as arrays that list their fields. So not every
accepted token has an object for a header (`not_forall_shownAlgorithm`). A payload that is an array
is refused.

The clock is counted in whole seconds from 1970, and the leeway is taken off it in numbers that have
no sign. Before the first minute is over there is nothing to take it off: the check breaks off and
no token is accepted. From then on it never does (`verify_ne_clockTooEarly`).
-/

namespace Licensing

/-! ### Parts between points -/

namespace Text

theorem cutFirst_cons (sep c : Char) (s : List Char) : cutFirst sep (c :: s) =
    if c = sep then some ([], s)
    else (cutFirst sep s).map fun (before, after) ↦ (c :: before, after) := by
  unfold cutFirst
  by_cases hc : c = sep
  · simp [hc]
  · rw [List.dropWhile_cons_of_pos (by simpa using hc),
      List.takeWhile_cons_of_pos (by simpa using hc), if_neg hc]
    cases s.dropWhile (· ≠ sep) <;> rfl

/-- What stands before the first separator has none. -/
theorem eq_of_cutFirst {sep : Char} {s before after : List Char}
    (h : cutFirst sep s = some (before, after)) : s = before ++ sep :: after ∧ sep ∉ before := by
  induction s generalizing before with
  | nil => cases h
  | cons c s ih =>
    rw [cutFirst_cons] at h
    by_cases hc : c = sep
    · rw [if_pos hc] at h
      cases h
      exact ⟨by rw [hc, List.nil_append], List.not_mem_nil⟩
    · rw [if_neg hc] at h
      obtain ⟨⟨front, _⟩, hcut, heq⟩ := Option.map_eq_some_iff.1 h
      cases heq
      obtain ⟨rfl, hfree⟩ := ih hcut
      refine ⟨rfl, fun hmem ↦ ?_⟩
      rcases List.mem_cons.1 hmem with heq | hmem
      · exact hc heq.symm
      · exact hfree hmem

/-- What stands after the last separator has none. -/
theorem eq_of_cutLast {sep : Char} {s before after : List Char}
    (h : cutLast sep s = some (before, after)) : s = before ++ sep :: after ∧ sep ∉ after := by
  unfold cutLast at h
  rcases hcut : cutFirst sep s.reverse with - | ⟨last, front⟩
  · rw [hcut] at h
    cases h
  · rw [hcut] at h
    obtain ⟨rfl, rfl⟩ := Prod.mk.inj (Option.some.inj h)
    obtain ⟨heq, hfree⟩ := eq_of_cutFirst hcut
    refine ⟨?_, fun hmem ↦ hfree (List.mem_reverse.1 hmem)⟩
    simpa using congrArg List.reverse heq

/-- What spells bytes is made of letters of the alphabet. -/
theorem Base64Url.isSome_value?_of_decode? {s : List Char} {bytes : List UInt8}
    (h : decode? s = some bytes) : ∀ c ∈ s, (value? c).isSome = true := by
  obtain ⟨values, hvalues, -⟩ := Option.bind_eq_some_iff.1 h
  clear h
  induction s generalizing values with
  | nil => exact List.forall_mem_nil _
  | cons c s ih =>
    rw [List.mapM_cons] at hvalues
    obtain ⟨value, hvalue, hrest⟩ := Option.bind_eq_some_iff.1 hvalues
    obtain ⟨more, hmore, -⟩ := Option.bind_eq_some_iff.1 hrest
    exact List.forall_mem_cons.2 ⟨by rw [hvalue]; rfl, ih more hmore⟩

end Text

/-! ### Values of a wanted form -/

namespace Json.Reader

variable {α : Type} {text rest : List Char}

theorem takes_spaces_bind_iff {f : Unit → Reader α} {a : α} :
    Takes (spaces >>= f) text a rest ↔ Takes (f ()) (unspaced text) a rest := by
  rw [takes_bind_iff]
  constructor
  · rintro ⟨_, _, hspaces, h⟩
    obtain rfl := takes_spaces_iff.1 hspaces
    exact h
  · exact fun h ↦ ⟨(), _, takes_spaces_iff.2 rfl, h⟩

/-- White space before a string does not matter. -/
theorem takes_string_unspaced {s : String} :
    Takes string (unspaced text) s rest ↔ Takes string text s rest := by
  have hiff := fun text ↦
    (takes_spaces_bind_iff : Takes string text s rest ↔ _)
  refine (hiff (unspaced text)).trans ?_
  rw [unspaced_unspaced]
  exact (hiff text).symm

theorem takes_spelled {parse : String → Option α} {a : α} (h : Takes (spelled parse) text a rest) :
    ∃ s, Takes string text s rest ∧ parse s = some a := by
  obtain ⟨s, _, hstring, h⟩ := takes_bind_iff.1 h
  split at h
  · next hparse =>
    obtain ⟨rfl, rfl⟩ := takes_pure_iff.1 h
    exact ⟨s, hstring, hparse⟩
  · exact absurd h not_takes_mismatched

/-- A value that is there is read as such, if it is a string. -/
theorem takes_optional_string {s : String} (h : Takes (optional string) text (some s) rest) :
    Takes string text s rest := by
  have h := takes_spaces_peek h
  split at h
  · obtain ⟨_, _, -, h⟩ := takes_bind_iff.1 h
    cases (takes_pure_iff.1 h).1
  · obtain ⟨_, _, hstring, h⟩ := takes_bind_iff.1 h
    obtain ⟨⟨⟩, rfl⟩ := takes_pure_iff.1 h
    exact takes_string_unspaced.1 hstring

theorem takes_literal {word : List Char} {u : Unit} (h : Takes (literal word) text u rest) :
    text = word ++ rest := by
  unfold Takes literal at h
  split at h
  · next hprefix =>
    obtain ⟨after, rfl⟩ := List.isPrefixOf_iff_prefix.1 hprefix
    cases h
    simp
  · cases h

/-- A word is a string, or the name of the one member of an object, whose value is `null`. -/
theorem takes_word {parse : String → Option α} {a : α} (h : Takes (word parse) text a rest) :
    ∃ s, parse s = some a ∧ ((∃ rest, Takes string text s rest) ∨
      ∃ inside after value closing, unspaced text = '{' :: inside ∧ Takes string inside s after ∧
        unspaced after = ':' :: value ∧ unspaced value = "null".toList ++ closing ∧
        (unspaced closing).head? = some '}') := by
  have h := takes_spaces_peek h
  split at h
  · obtain ⟨s, hstring, hparse⟩ := takes_spelled h
    exact ⟨s, hparse, .inl ⟨rest, takes_string_unspaced.1 hstring⟩⟩
  · next hopened =>
    obtain ⟨_, after, hspelled, h⟩ := takes_bind_iff.1 (takes_skip_bind h)
    obtain ⟨s, hstring, hparse⟩ := takes_spelled hspelled
    obtain ⟨_, value, hcolon, h⟩ := takes_bind_iff.1 h
    have h := takes_spaces_peek h
    split at h
    · obtain ⟨_, closing, hnull, h⟩ := takes_bind_iff.1 h
      have h := takes_spaces_peek h
      split at h
      · next hclosed =>
        obtain ⟨_, _, -, h⟩ := takes_bind_iff.1 h
        obtain ⟨rfl, -⟩ := takes_pure_iff.1 h
        exact ⟨s, hparse, .inr ⟨_, after, value, closing, eq_cons_of_head? hopened, hstring,
          colon_takes hcolon, takes_literal hnull, hclosed⟩⟩
      · obtain ⟨_, _, hfault, -⟩ := takes_bind_iff.1 h
        exact absurd hfault not_takes_malformed
    · obtain ⟨_, _, hfault, -⟩ := takes_bind_iff.1 h
      exact absurd hfault not_takes_wrongForm
  · exact absurd h not_takes_malformed

end Json.Reader

namespace Token

open Json.Reader (Takes Owns Says Silent Object Items unspaced)

/-! ### Headers -/

/-- The value names the algorithm: the string, or an object whose one member has that name. -/
def Algorithm.NamedAt (algorithm : Algorithm) (value : List Char) : Prop :=
  (∃ rest, Takes Json.Reader.string value algorithm.name rest) ∨
    ∃ inside after null closing, unspaced value = '{' :: inside ∧
      Takes Json.Reader.string inside algorithm.name after ∧ unspaced after = ':' :: null ∧
      unspaced null = "null".toList ++ closing ∧ (unspaced closing).head? = some '}'

theorem Algorithm.name_of_ofName? {text : String} {algorithm : Algorithm}
    (h : ofName? text = some algorithm) : text = algorithm.name := by
  have hname := List.find?_some h
  exact (eq_of_beq hname).symm

theorem Algorithm.namedAt_of_takes {algorithm : Algorithm} {value rest : List Char}
    (h : Takes (Json.Reader.word ofName?) value algorithm rest) : algorithm.NamedAt value := by
  obtain ⟨s, hname, hspelled⟩ := Json.Reader.takes_word h
  obtain rfl := name_of_ofName? hname
  exact hspelled

/-- The text is a header that names the algorithm: an object with one member `alg`, or an array of
all ten standard fields, of which the second is `alg`. Nothing else stands in the text. -/
def Algorithm.NamedIn (algorithm : Algorithm) (text : List Char) : Prop :=
  ∃ header rest, unspaced rest = [] ∧
    ((∃ members value, Object Header.slots text ⟨.hs256⟩ members header rest ∧
        members.filter (·.1 == "alg") = [("alg", value)] ∧ algorithm.NamedAt value) ∨
      ∃ inside values value, unspaced text = '[' :: inside ∧
        Items Header.slots true inside ⟨.hs256⟩ values header rest ∧ values.length = 10 ∧
        values[1]? = some value ∧ algorithm.NamedAt value)

/-- Of the fields of a header, only one is kept. -/
theorem Header.owns_algorithm :
    Owns slots "alg" (Json.Reader.word Algorithm.ofName?) Header.algorithm where
  sets := by
    refine ⟨_, rfl, fun hread ↦ ?_⟩
    obtain ⟨a, ha, rfl⟩ := Json.Reader.takes_map hread
    exact ⟨a, ha, fun _ ↦ rfl⟩
  keeps := by
    intro slot hslot hname value set rest hread r
    simp only [slots, List.mem_cons, List.not_mem_nil, or_false] at hslot
    rcases hslot with rfl | rfl | rfl | rfl | rfl | rfl | rfl | rfl | rfl | rfl <;>
      first
      | exact absurd rfl hname
      | obtain ⟨a, -, rfl⟩ := Json.Reader.takes_map hread
        rfl

/-- A text that is read as JSON holds what was read, and nothing else. -/
theorem takes_of_readJson {α : Type} {reader : Json.Reader α} {text : List Char} {a : α}
    (h : readJson reader text = .ok a) : ∃ rest, Takes reader text a rest ∧ unspaced rest = [] := by
  unfold readJson at h
  split at h
  · next hrun =>
    cases h
    exact Json.Reader.run_eq_ok hrun
  · cases h

/-- An array lists all fields of a header. -/
theorem Header.not_mayEndBefore : ∀ slot ∈ slots, slot.mayEndBefore = false := by
  intro slot hslot
  simp only [slots, List.mem_cons, List.not_mem_nil, or_false] at hslot
  rcases hslot with rfl | rfl | rfl | rfl | rfl | rfl | rfl | rfl | rfl | rfl <;> rfl

/-- **The algorithm that is read of a header stands in it.** -/
theorem Header.namedIn_of_readJson {text : List Char} {header : Header}
    (h : readJson reader text = .ok header) : header.algorithm.NamedIn text := by
  obtain ⟨rest, htakes, hend⟩ := takes_of_readJson h
  refine ⟨header, rest, hend, ?_⟩
  rcases Json.Reader.record_takes htakes with ⟨members, hobject⟩ | ⟨inside, values, hopened, hitems⟩
  · obtain ⟨value, rest', hfilter, hvalue⟩ :=
      hobject.says owns_algorithm ⟨_, .tail _ (.head _), rfl, rfl⟩
    exact .inl ⟨members, value, hobject, hfilter, Algorithm.namedAt_of_takes hvalue⟩
  · have hlength := hitems.length_eq not_mayEndBefore
    refine .inr ⟨inside, values, ?_⟩
    -- The first field is passed, the second is the algorithm, and no other touches it.
    have hall := hitems
    cases hitems with
    | ended _ hmay => cases hmay
    | item _ _ hrest =>
      cases hrest with
      | ended _ hmay => cases hmay
      | @item _ _ _ _ value _ _ _ _ _ _ _ hread hrest =>
        obtain ⟨a, ha, rfl⟩ := Json.Reader.takes_map hread
        have halgorithm : header.algorithm = a := by
          refine hrest.part_eq fun slot hslot ↦ owns_algorithm.keeps slot ?_ ?_
          · exact .tail _ (.tail _ hslot)
          · simp only [List.mem_cons, List.not_mem_nil, or_false] at hslot
            rcases hslot with rfl | rfl | rfl | rfl | rfl | rfl | rfl | rfl <;>
              exact fun hname ↦ absurd hname (by decide)
        exact ⟨value, hopened, hall, hlength, rfl, halgorithm ▸ Algorithm.namedAt_of_takes ha⟩

/-! ### Claims -/

/-- What the members of an object say of claims: each claim that is read stands there as such,
exactly once if it has to be there, and one that may be left out counts as zero or as none where it
is. -/
structure Claims.Stated (claims : Claims) (members : List (String × List Char)) : Prop where
  subject : Says members "sub" Json.Reader.string claims.subject
  expiry : Says members "exp" Json.Reader.int64 claims.expiry
  issuedAt : Says members "iat" Json.Reader.int64 claims.issuedAt ∨
    Silent members "iat" ∧ claims.issuedAt = 0
  issuer : Says members "iss" (.optional Json.Reader.string) claims.issuer ∨
    Silent members "iss" ∧ claims.issuer = none
  audience : Says members "aud" (.optional Json.Reader.string) claims.audience ∨
    Silent members "aud" ∧ claims.audience = none

/-- The text is an object that states the claims, and nothing else stands in it. -/
def Claims.StatedIn (claims : Claims) (text : List Char) : Prop :=
  ∃ members rest, Object Claims.slots text ⟨"", 0, 0, none, none⟩ members claims rest ∧
    unspaced rest = [] ∧ claims.Stated members

/-- Each field of the claims sets its own part. -/
theorem Claims.owns_parts :
    Owns slots "sub" Json.Reader.string subject ∧ Owns slots "exp" Json.Reader.int64 expiry ∧
      Owns slots "iat" Json.Reader.int64 issuedAt ∧
      Owns slots "iss" (.optional Json.Reader.string) issuer ∧
      Owns slots "aud" (.optional Json.Reader.string) audience := by
  refine ⟨⟨⟨_, rfl, ?_⟩, ?_⟩, ⟨⟨_, rfl, ?_⟩, ?_⟩, ⟨⟨_, rfl, ?_⟩, ?_⟩, ⟨⟨_, rfl, ?_⟩, ?_⟩,
    ⟨⟨_, rfl, ?_⟩, ?_⟩⟩
  all_goals
    first
    | intro value set rest hread
      obtain ⟨a, ha, rfl⟩ := Json.Reader.takes_map hread
      exact ⟨a, ha, fun _ ↦ rfl⟩
    | intro slot hslot hname value set rest hread r
      simp only [slots, List.mem_cons, List.not_mem_nil, or_false] at hslot
      rcases hslot with rfl | rfl | rfl | rfl | rfl <;>
        first
        | exact absurd rfl hname
        | obtain ⟨a, -, rfl⟩ := Json.Reader.takes_map hread
          rfl

/-- **Claims that are read of an object are stated in it.** -/
theorem Claims.statedIn_of_readJson {text : List Char} {claims : Claims}
    (h : readJson reader text = .ok claims) (hlisted : isListed text = false) :
    claims.StatedIn text := by
  obtain ⟨rest, htakes, hend⟩ := takes_of_readJson h
  obtain ⟨hsub, hexp, hiat, hiss, haud⟩ := owns_parts
  rcases Json.Reader.record_takes htakes with ⟨members, hobject⟩ | ⟨inside, values, hopened, -⟩
  · refine ⟨members, rest, hobject, hend, ?_⟩
    constructor
    · exact hobject.says hsub ⟨_, .head _, rfl, rfl⟩
    · exact hobject.says hexp ⟨_, .tail _ (.head _), rfl, rfl⟩
    · exact hobject.says_or_silent hiat
    · exact hobject.says_or_silent hiss
    · exact hobject.says_or_silent haud
  · have hbracket : isListed text = true := by
      show decide ((unspaced text).head? = some '[') = true
      rw [hopened]
      rfl
    rw [hbracket] at hlisted
    cases hlisted

/-! ### Verification -/

theorem ok_of_bind {ε α β : Type} {x : Except ε α} {f : α → Except ε β} {b : β}
    (h : x >>= f = .ok b) : ∃ a, x = .ok a ∧ f a = .ok b := by
  cases x with
  | error => cases h
  | ok a => exact ⟨a, rfl, h⟩

theorem error_of_bind {ε α β : Type} {x : Except ε α} {f : α → Except ε β} {e : ε}
    (h : x >>= f = .error e) : x = .error e ∨ ∃ a, x = .ok a ∧ f a = .error e := by
  cases x with
  | error =>
    cases h
    exact .inl rfl
  | ok a => exact .inr ⟨a, rfl, h⟩

theorem eq_some_of_orElse {α : Type} {value : Option α} {fault : Fault} {a : α}
    (h : verify.orElse value fault = .ok a) : value = some a := by
  cases value <;> cases h
  rfl

/-- **Each check that a token has passed.** -/
theorem checks_of_verify {secret : String} {issuer audience : Option String} {now : Int}
    {token : List Char} {claims : Claims}
    (h : verify ⟨some secret, issuer, audience⟩ now token = .ok claims) :
    ∃ message header payload headerText payloadText,
      Text.cutLast '.' token = some (message, signature secret message) ∧
      Text.cutLast '.' message = some (header, payload) ∧
      decodeText header = .ok headerText ∧ readJson Header.reader headerText = .ok ⟨.hs256⟩ ∧
      decodeText payload = .ok payloadText ∧ readJson Claims.reader payloadText = .ok claims ∧
      checkClaims ⟨some secret, issuer, audience⟩ now (isListed payloadText) claims = .ok () := by
  unfold verify at h
  obtain ⟨⟨message, signed⟩, hsigned, hrest⟩ := ok_of_bind h
  clear h
  obtain ⟨⟨header, payload⟩, hmessage, hrest⟩ := ok_of_bind hrest
  obtain ⟨headerText, hheader, hrest⟩ := ok_of_bind hrest
  obtain ⟨⟨algorithm⟩, halgorithm, hrest⟩ := ok_of_bind hrest
  dsimp only at hrest
  by_cases hhs256 : algorithm ≠ .hs256
  · rw [if_pos hhs256] at hrest
    obtain ⟨_, hthrown, -⟩ := ok_of_bind hrest
    cases hthrown
  rw [if_neg hhs256] at hrest
  by_cases hsignature : signed ≠ signature secret message
  · rw [if_pos (by simpa using hsignature)] at hrest
    obtain ⟨_, hthrown, -⟩ := ok_of_bind hrest
    cases hthrown
  rw [if_neg (by simpa using hsignature)] at hrest
  rw [Decidable.not_not.1 hsignature] at hsigned
  rw [Decidable.not_not.1 hhs256] at halgorithm
  obtain ⟨payloadText, hpayload, hrest⟩ := ok_of_bind hrest
  obtain ⟨read, hread, hrest⟩ := ok_of_bind hrest
  obtain ⟨_, -, hrest⟩ := ok_of_bind hrest
  obtain ⟨_, hchecked, hrest⟩ := ok_of_bind hrest
  cases hrest
  exact ⟨message, header, payload, headerText, payloadText, eq_some_of_orElse hsigned,
    eq_some_of_orElse hmessage, hheader, halgorithm, hpayload, hread, hchecked⟩

/-- **The rules that claims keep** if they are let through. -/
theorem of_checkClaims {policy : Policy} {now : Int} {listed : Bool} {claims : Claims}
    (h : checkClaims policy now listed claims = .ok ()) :
    listed = false ∧ leeway ≤ now ∧ 0 ≤ claims.expiry ∧ now - leeway ≤ claims.expiry ∧
      (∀ issuer, policy.issuer = some issuer → claims.issuer = some issuer) ∧
      ∀ audience, policy.audience = some audience → claims.audience = some audience := by
  unfold checkClaims at h
  split at h
  · cases h
  next husable =>
  split at h
  · cases h
  next hclock =>
  split at h
  · cases h
  next hcurrent =>
  split at h
  · cases h
  next hissuer =>
  split at h
  · cases h
  next haudience =>
  simp only [Bool.or_eq_true, not_or, decide_eq_true_eq, Bool.not_eq_true] at husable
  obtain ⟨⟨⟨hlisted, hnegative⟩, -⟩, -⟩ := husable
  refine ⟨hlisted, by omega, by omega, by omega, fun issuer heq ↦ ?_, fun audience heq ↦ ?_⟩
  · simpa [heq] using hissuer
  · simpa [heq] using haudience

theorem orElse_ne_clockTooEarly {α : Type} {value : Option α} :
    verify.orElse value .notThreeParts ≠ .error .clockTooEarly := by
  cases value <;> nofun

theorem decodeText_ne_clockTooEarly {encoded : List Char} :
    decodeText encoded ≠ .error .clockTooEarly := by
  unfold decodeText
  split
  · nofun
  · split <;> nofun

theorem readJson_ne_clockTooEarly {α : Type} {reader : Json.Reader α} {text : List Char} :
    readJson reader text ≠ .error .clockTooEarly := by
  unfold readJson
  split <;> nofun

theorem checkClaims_ne_clockTooEarly {policy : Policy} {now : Int} (h : leeway ≤ now)
    (listed : Bool) (claims : Claims) :
    checkClaims policy now listed claims ≠ .error .clockTooEarly := by
  unfold checkClaims
  rw [if_neg (Int.not_lt.2 h)]
  repeat' split
  all_goals nofun

/-- **No check breaks off once the clock has run for a minute**, whatever the text. -/
theorem verify_ne_clockTooEarly {policy : Policy} {now : Int} (h : leeway ≤ now)
    (token : List Char) : verify policy now token ≠ .error .clockTooEarly := by
  -- Each step gives faults of its own, and the last one is the only that reads the clock.
  intro hbroken
  unfold verify at hbroken
  obtain hparts | ⟨⟨message, signed⟩, -, hrest⟩ := error_of_bind hbroken
  · exact orElse_ne_clockTooEarly hparts
  obtain hparts | ⟨⟨header, payload⟩, -, hrest⟩ := error_of_bind hrest
  · exact orElse_ne_clockTooEarly hparts
  obtain hdecoded | ⟨_, -, hrest⟩ := error_of_bind hrest
  · exact decodeText_ne_clockTooEarly hdecoded
  obtain hread | ⟨_, -, hrest⟩ := error_of_bind hrest
  · exact readJson_ne_clockTooEarly hread
  dsimp only at hrest
  split at hrest
  · cases hrest
  split at hrest
  · cases hrest
  obtain hdecoded | ⟨_, -, hrest⟩ := error_of_bind hrest
  · exact decodeText_ne_clockTooEarly hdecoded
  obtain hread | ⟨_, -, hrest⟩ := error_of_bind hrest
  · exact readJson_ne_clockTooEarly hread
  obtain hread | ⟨_, -, hrest⟩ := error_of_bind hrest
  · exact readJson_ne_clockTooEarly hread
  obtain hchecked | ⟨_, -, hrest⟩ := error_of_bind hrest
  · exact checkClaims_ne_clockTooEarly h _ _ hchecked
  · cases hrest

/-- What is decoded has no point in it. -/
theorem point_not_mem_of_decodeText {encoded text : List Char}
    (h : decodeText encoded = .ok text) : '.' ∉ encoded := by
  unfold decodeText at h
  split at h
  · cases h
  · next hbytes =>
    intro hmem
    cases Text.Base64Url.isSome_value?_of_decode? hbytes _ hmem

/-- A claim that is there as a string, among those that may be `null`. -/
theorem says_string {members : List (String × List Char)} {name : String} {value? : Option String}
    (h : Says members name (.optional Json.Reader.string) value? ∨
      Silent members name ∧ value? = none)
    {value : String} (hvalue : value? = some value) :
    Says members name Json.Reader.string value := by
  subst hvalue
  rcases h with ⟨text, rest, hfilter, hread⟩ | ⟨-, hnone⟩
  · exact ⟨text, rest, hfilter, Json.Reader.takes_optional_string hread⟩
  · cases hnone

/-- **An operator token is accepted only if it is genuine, current and meant for this service.** For
any secret, any issuer and audience that may be configured, any time in seconds and any text: if the
claims of the text are let through, then

* the text is a header, a payload and a signature with points between them, and the signature is the
  HMAC-SHA256 of header, point and payload under the secret, in base64url without padding;
* the header decodes to an object, or to an array of all standard fields, that names HS256;
* the payload decodes to an object that states just these claims;
* the expiry is not negative and not more than 60 seconds ago;
* an issuer that is configured is in the payload as the one issuer, and so is an audience. -/
theorem verify_genuine {secret : String} {issuer audience : Option String} {now : Int}
    {token : List Char} {claims : Claims}
    (h : verify ⟨some secret, issuer, audience⟩ now token = .ok claims) :
    ∃ header payload headerText payloadText members rest,
      Text.segments '.' token =
        [header, payload, Text.Base64Url.encode (Crypto.hmacSha256 (Text.Utf8.encodeString secret)
          (Text.Utf8.encode (header ++ '.' :: payload)))] ∧
      decodeText header = .ok headerText ∧ Algorithm.hs256.NamedIn headerText ∧
      decodeText payload = .ok payloadText ∧
      Object Claims.slots payloadText ⟨"", 0, 0, none, none⟩ members claims rest ∧
      unspaced rest = [] ∧ claims.Stated members ∧
      0 ≤ claims.expiry ∧ now - 60 ≤ claims.expiry ∧
      (∀ name, issuer = some name →
        Says members "iss" Json.Reader.string name ∧ claims.issuer = some name) ∧
      ∀ name, audience = some name →
        Says members "aud" Json.Reader.string name ∧ claims.audience = some name := by
  obtain ⟨message, header, payload, headerText, payloadText, hsigned, hmessage, hheader, halgorithm,
    hpayload, hclaims, hchecked⟩ := checks_of_verify h
  obtain ⟨rfl, hsignature⟩ := Text.eq_of_cutLast hsigned
  obtain ⟨rfl, hpoint⟩ := Text.eq_of_cutLast hmessage
  obtain ⟨hlisted, -, hexpiry, hcurrent, hissuer, haudience⟩ := of_checkClaims hchecked
  obtain ⟨members, rest, hobject, hend, hstated⟩ := Claims.statedIn_of_readJson hclaims hlisted
  have hsegments : Text.segments '.' ((header ++ '.' :: payload) ++
      '.' :: signature secret (header ++ '.' :: payload)) =
        [header, payload, signature secret (header ++ '.' :: payload)] := by
    rw [List.append_assoc, List.cons_append,
      Text.segments_append_cons (point_not_mem_of_decodeText hheader),
      Text.segments_append_cons hpoint, Text.segments_of_not_mem hsignature]
  refine ⟨header, payload, headerText, payloadText, members, rest, hsegments, hheader,
    Header.namedIn_of_readJson halgorithm, hpayload, hobject, hend, hstated, hexpiry, hcurrent,
    ?_, ?_⟩
  · exact fun name hname ↦
      ⟨says_string hstated.issuer (hissuer name hname), hissuer name hname⟩
  · exact fun name hname ↦
      ⟨says_string hstated.audience (haudience name hname), haudience name hname⟩

/-- A token for the license service, with an issuer and an audience. -/
def addressed : List Char :=
  ("eyJ0eXAiOiJKV1QiLCJhbGciOiJIUzI1NiJ9." ++
    "eyJzdWIiOiJvcGVyYXRvciIsImV4cCI6MTAwLCJpYXQiOjAsImlzcyI6Imlzc3VlciIsImF1ZCI6ImxpY2Vuc2VzIn0." ++
    "2uq_xTniqf8fYK_K40KNLCrkP9PIaTjO483ebBqRWNo").toList

/-- It is accepted up to a minute after its expiry, and states its issuer. -/
theorem verify_genuine_addressed :
    verify ⟨some "secret", some "issuer", some "licenses"⟩ 160 addressed =
        .ok ⟨"operator", 100, 0, some "issuer", some "licenses"⟩ ∧
      ∃ members, Says members "iss" Json.Reader.string "issuer" ∧
        Says members "aud" Json.Reader.string "licenses" := by
  have haccepted : verify ⟨some "secret", some "issuer", some "licenses"⟩ 160 addressed =
      .ok ⟨"operator", 100, 0, some "issuer", some "licenses"⟩ := by
    decide +kernel
  obtain ⟨-, -, -, -, members, -, -, -, -, -, -, -, -, -, -, hissuer, haudience⟩ :=
    verify_genuine haccepted
  exact ⟨haccepted, members, (hissuer _ rfl).1, (haudience _ rfl).1⟩

/-- What the header of a token shows as its algorithm, if the header is an object. -/
def shownAlgorithm? (token : List Char) : Option Json := do
  let header ← (Text.segments '.' token).head?
  let text ← (decodeText header).toOption
  let value ← Json.ofText? (String.ofList text)
  value.get? "alg"

/-- A token whose header is an array, with the algorithm as an object. -/
def listed : List Char :=
  ("W251bGwseyJIUzI1NiI6bnVsbH0sbnVsbCxudWxsLG51bGwsbnVsbCxudWxsLG51bGwsbnVsbCxudWxsXQ." ++
    "eyJzdWIiOiJvcGVyYXRvciIsImV4cCI6NDEwMjQ0NDgwMH0." ++
    "8NOkWS7i_l2TXWKtUmozfAbFSQMnB1tfMajgvudOvUc").toList

/-- Not every accepted token has an object for a header, with the algorithm as a string. -/
theorem not_forall_shownAlgorithm :
    ¬ ∀ secret issuer audience now token claims,
      verify ⟨some secret, issuer, audience⟩ now token = .ok claims →
        shownAlgorithm? token = some (.string "HS256") := by
  intro hall
  -- Noon of 1 June 2024; the token holds until 2100.
  have haccepted : verify ⟨some "secret", none, none⟩ 1717243200 listed =
      .ok ⟨"operator", 4102444800, 0, none, none⟩ := by
    decide +kernel
  have hshown : shownAlgorithm? listed ≠ some (.string "HS256") := by decide +kernel
  exact hshown (hall "secret" none none 1717243200 listed _ haccepted)

end Token

end Licensing
