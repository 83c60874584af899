import Licensing.Proofs.Json.Written
import Licensing.Proofs.Token.Accepted

/-!
# Signed tokens

A token that is signed here is taken apart again into its header, its payload and its signature,
and the payload is read back as the claims that were signed (`Claims.readJson_text`). So whether it
is accepted depends on the claims alone: on their expiry, and on the issuer and the audience that
are configured (`verify_signed`).

The main result is `verify_sign_iff`. It rests on one round trip per layer, each from the inside
out: claims and their JSON (`Claims.readJson_text`, by `Json.Reader.takes_object`), text and bytes,
bytes and base64url (`decodeText_encode`), parts and the points between them (`cutLast_append`, as
base64url has no points in it). What is left is the rules for claims, and these are exact
(`checkClaims_eq_ok_iff`).

One of the rules is not about the claims. The leeway of a minute is subtracted from the clock, so
the clock must have run for a minute; by `not_forall_verify_sign` this cannot be left out.
-/

namespace Licensing

/-! ### Parts between points -/

namespace Text

theorem cutFirst_append {sep : Char} {before : List Char} (h : sep ∉ before) (after : List Char) :
    cutFirst sep (before ++ sep :: after) = some (before, after) := by
  induction before with
  | nil => rw [List.nil_append, cutFirst_cons, if_pos rfl]
  | cons c before ih =>
    obtain ⟨hc, hbefore⟩ := not_or.1 (mt List.mem_cons.2 h)
    rw [List.cons_append, cutFirst_cons, if_neg (Ne.symm hc), ih hbefore]
    rfl

/-- A text is cut at the separator that none follows. -/
theorem cutLast_append {sep : Char} {after : List Char} (before : List Char) (h : sep ∉ after) :
    cutLast sep (before ++ sep :: after) = some (before, after) := by
  have hcut := cutFirst_append (mt List.mem_reverse.1 h) before.reverse
  have hreverse : (before ++ sep :: after).reverse = after.reverse ++ sep :: before.reverse := by
    simp
  rw [cutLast, hreverse, hcut]
  simp only [Option.map_some, List.reverse_reverse]

/-- Bytes are written without points. -/
theorem Base64Url.point_not_mem_encode (bytes : List UInt8) : '.' ∉ encode bytes := fun hmem ↦ by
  cases isSome_value?_of_decode? (decode?_encode bytes) _ hmem

end Text

namespace Token

open Json.Reader (Fills Reads)

/-- A text is decoded from what is written of it. -/
theorem decodeText_encode (text : List Char) :
    decodeText (Text.Base64Url.encode (Text.Utf8.encode text)) = .ok text := by
  unfold decodeText
  rw [Text.Base64Url.decode?_encode]
  simp only [Text.Utf8.decode?_encode]

theorem readJson_of_takes {α : Type} {reader : Json.Reader α} {text : List Char} {a : α}
    (h : Json.Reader.Takes reader text a []) : readJson reader text = .ok a := by
  unfold readJson
  rw [h.run_eq]

/-! ### Claims that are written -/

/-- The points of time in the claims are whole numbers of 64 bits. -/
structure Claims.InRange (claims : Claims) : Prop where
  expiry : -(twoTo 63 : Int) ≤ claims.expiry ∧ claims.expiry < twoTo 63
  issuedAt : -(twoTo 63 : Int) ≤ claims.issuedAt ∧ claims.issuedAt < twoTo 63

namespace Claims

/-- The fields that claims are written with. -/
def fields (claims : Claims) : Json.Fields :=
  [("sub", .string claims.subject), ("exp", .int claims.expiry), ("iat", .int claims.issuedAt)] ++
    (claims.issuer.map fun s ↦ ("iss", Json.string s)).toList ++
    (claims.audience.map fun s ↦ ("aud", Json.string s)).toList

theorem toJson_eq (claims : Claims) : claims.toJson = .object claims.fields := rfl

theorem names_fields (claims : Claims) : claims.fields.map (·.1) =
    ["sub", "exp", "iat"] ++ (claims.issuer.map fun _ ↦ "iss").toList ++
      (claims.audience.map fun _ ↦ "aud").toList := by
  obtain ⟨subject, expiry, issuedAt, issuer, audience⟩ := claims
  cases issuer <;> cases audience <;> rfl

theorem nodup_fields (claims : Claims) : (claims.fields.map (·.1)).Nodup := by
  rw [names_fields]
  cases claims.issuer <;> cases claims.audience <;> simp

/-- The fields of claims fill the claims. -/
theorem fills_fields {claims : Claims} (h : claims.InRange) :
    Fills slots ⟨"", 0, 0, none, none⟩ claims.fields claims := by
  obtain ⟨subject, expiry, issuedAt, issuer, audience⟩ := claims
  refine .field rfl ((Json.Reader.reads_string subject).map _) <|
    .field rfl ((Json.Reader.reads_int64 h.expiry).map _) <|
    .field rfl ((Json.Reader.reads_int64 h.issuedAt).map _) ?_
  rcases issuer with - | issuer <;> rcases audience with - | audience
  · exact .none
  · exact .field rfl ((Json.Reader.reads_optional_string audience).map _) .none
  · exact .field rfl ((Json.Reader.reads_optional_string issuer).map _) .none
  · exact .field rfl ((Json.Reader.reads_optional_string issuer).map _) <|
      .field rfl ((Json.Reader.reads_optional_string audience).map _) .none

/-- None of the fields of claims is a standard claim that is looked at again. -/
theorem fills_standard (claims : Claims) :
    Fills [.defaulted "nbf" passNumberAttempt fun _ r ↦ r] () claims.fields () := by
  obtain ⟨subject, expiry, issuedAt, issuer, audience⟩ := claims
  refine .other rfl (Json.Reader.reads_pass_string subject) <|
    .other rfl (Json.Reader.reads_pass_int expiry) <|
    .other rfl (Json.Reader.reads_pass_int issuedAt) ?_
  rcases issuer with - | issuer <;> rcases audience with - | audience
  · exact .none
  · exact .other rfl (Json.Reader.reads_pass_string audience) .none
  · exact .other rfl (Json.Reader.reads_pass_string issuer) .none
  · exact .other rfl (Json.Reader.reads_pass_string issuer) <|
      .other rfl (Json.Reader.reads_pass_string audience) .none

/-- **Claims are read back from what is written of them.** -/
theorem readJson_text {claims : Claims} (h : claims.InRange) :
    readJson reader claims.toJson.text = .ok claims := by
  refine readJson_of_takes (Json.Reader.takes_object (fills_fields h) claims.nodup_fields ?_)
  intro slot hslot hrequired
  show slot.name ∈ claims.fields.map (·.1)
  rw [names_fields]
  simp only [slots, List.mem_cons, List.not_mem_nil, or_false] at hslot
  rcases hslot with rfl | rfl | rfl | rfl | rfl
  · exact List.mem_append_left _ (List.mem_append_left _ (by decide))
  · exact List.mem_append_left _ (List.mem_append_left _ (by decide))
  all_goals cases hrequired

theorem readJson_standard (claims : Claims) :
    readJson standardReader claims.toJson.text = .ok () := by
  refine readJson_of_takes
    (Json.Reader.takes_object claims.fills_standard claims.nodup_fields ?_)
  rintro slot hslot hrequired
  obtain rfl := List.mem_singleton.1 hslot
  cases hrequired

theorem isListed_text (claims : Claims) : isListed claims.toJson.text = false := by
  rw [toJson_eq, Json.text]
  rfl

end Claims

theorem readJson_headerText : readJson Header.reader headerText = .ok ⟨.hs256⟩ := by
  decide +kernel

/-- A token that passes all checks up to those of its claims is let through or refused as they
are. -/
theorem verify_of_checks {secret : String} {issuer audience : Option String} {now : Int}
    {token message header payload headerText payloadText : List Char} {claims : Claims}
    (hsigned : Text.cutLast '.' token = some (message, signature secret message))
    (hmessage : Text.cutLast '.' message = some (header, payload))
    (hheader : decodeText header = .ok headerText)
    (halgorithm : readJson Header.reader headerText = .ok ⟨.hs256⟩)
    (hpayload : decodeText payload = .ok payloadText)
    (hclaims : readJson Claims.reader payloadText = .ok claims)
    (hstandard : readJson standardReader payloadText = .ok ()) :
    verify ⟨some secret, issuer, audience⟩ now token =
      (checkClaims ⟨some secret, issuer, audience⟩ now (isListed payloadText) claims).map
        fun _ ↦ claims := by
  have hunforged : ¬ (some secret).all (fun s ↦ decide (signature secret message ≠
      signature s message)) = true := by
    simp
  unfold verify
  simp only [hsigned, hmessage, hheader, halgorithm, hpayload, hclaims, hstandard, verify.orElse,
    Bind.bind, Except.bind]
  rw [if_neg (not_not_intro rfl), if_neg hunforged]
  cases checkClaims ⟨some secret, issuer, audience⟩ now (isListed payloadText) claims <;> rfl

/-- The claims of an object are let through exactly if they keep the rules. -/
theorem checkClaims_eq_ok_iff {policy : Policy} {now : Int} {claims : Claims} :
    checkClaims policy now false claims = .ok () ↔
      leeway ≤ now ∧ 0 ≤ claims.expiry ∧ now - leeway ≤ claims.expiry ∧
        (∀ issuer, policy.issuer = some issuer → claims.issuer = some issuer) ∧
        ∀ audience, policy.audience = some audience → claims.audience = some audience := by
  refine ⟨fun h ↦ (of_checkClaims h).2, ?_⟩
  rintro ⟨hclock, hexpiry, hcurrent, hissuer, haudience⟩
  -- A claim that is configured is there, and it is the configured one.
  have hagree : ∀ {wanted stated : Option String}, (∀ s, wanted = some s → stated = some s) →
      (wanted.isSome && decide (stated = none)) = false ∧
        (wanted.isSome && decide (stated ≠ wanted)) = false := by
    intro wanted stated h
    cases wanted with
    | none => exact ⟨rfl, rfl⟩
    | some s => simp [h s rfl]
  obtain ⟨hissued, hissuer⟩ := hagree hissuer
  obtain ⟨haddressed, haudience⟩ := hagree haudience
  have hnonneg : decide (claims.expiry < 0) = false := decide_eq_false (by omega)
  unfold checkClaims
  rw [hissued, haddressed, hnonneg, if_neg (by decide), if_neg (by omega),
    if_neg (by omega), hissuer, haudience, if_neg (by decide), if_neg (by decide)]

theorem map_eq_ok_iff {check : Except Fault Unit} {claims result : Claims} :
    (check.map fun _ ↦ claims) = .ok result ↔ result = claims ∧ check = .ok () := by
  cases check with
  | error => exact ⟨nofun, nofun⟩
  | ok =>
    constructor
    · rintro ⟨⟩
      exact ⟨rfl, rfl⟩
    · rintro ⟨rfl, -⟩
      rfl

/-- **What becomes of a token that was signed with the secret** is what becomes of its claims. -/
theorem verify_signed (secret : String) (issuer audience : Option String) (now : Int)
    {claims : Claims} (h : claims.InRange) :
    verify ⟨some secret, issuer, audience⟩ now (sign secret claims) =
      (checkClaims ⟨some secret, issuer, audience⟩ now false claims).map fun _ ↦ claims := by
  have hverify := @verify_of_checks secret issuer audience now (sign secret claims) _ _ _ _ _ _
    (Text.cutLast_append _ (Text.Base64Url.point_not_mem_encode _))
    (Text.cutLast_append _ (Text.Base64Url.point_not_mem_encode _)) (decodeText_encode _)
    readJson_headerText (decodeText_encode _) (Claims.readJson_text h) claims.readJson_standard
  rw [claims.isListed_text] at hverify
  exact hverify

/-- **The tokens made here are accepted exactly as long as their claims hold, and for just these
claims.** For any secret, any issuer and audience that may be configured, any time in seconds and
any claims whose points of time have 64 bits: the token of the claims under the secret is accepted
if and only if the clock has run for a minute at least, the expiry is not negative and not more than
60 seconds ago, an issuer that is configured is the one in the claims, and so is an audience. What
it is accepted for are the claims it was made of. -/
theorem verify_sign_iff (secret : String) (issuer audience : Option String) (now : Int)
    {claims : Claims} (h : claims.InRange) (result : Claims) :
    verify ⟨some secret, issuer, audience⟩ now (sign secret claims) = .ok result ↔
      result = claims ∧ 60 ≤ now ∧ 0 ≤ claims.expiry ∧ now - 60 ≤ claims.expiry ∧
        (∀ name, issuer = some name → claims.issuer = some name) ∧
        ∀ name, audience = some name → claims.audience = some name := by
  rw [verify_signed secret issuer audience now h, map_eq_ok_iff, checkClaims_eq_ok_iff]
  exact Iff.rfl

/-- A token for the license service is accepted from the first minute of the clock to the last
second of the leeway, and no longer. -/
theorem verify_sign_iff_addressed :
    let claims : Claims := ⟨"operator", 100, 0, some "issuer", some "licenses"⟩
    let policy : Policy := ⟨some "secret", some "issuer", some "licenses"⟩
    claims.InRange ∧ sign "secret" claims = addressed ∧
      verify policy 59 addressed ≠ .ok claims ∧ verify policy 60 addressed = .ok claims ∧
      verify policy 160 addressed = .ok claims ∧ verify policy 161 addressed ≠ .ok claims := by
  intro claims policy
  have hrange : claims.InRange := ⟨by decide, by decide⟩
  have hsign : sign "secret" claims = addressed := by decide +kernel
  have hiff := fun now ↦ verify_sign_iff "secret" (some "issuer") (some "licenses") now hrange
  rw [hsign] at hiff
  have haccepted : ∀ now : Int, 60 ≤ now → now - 60 ≤ 100 →
      verify policy now addressed = .ok claims := fun now hclock hcurrent ↦
    (hiff now claims).2 ⟨rfl, hclock, by decide, hcurrent, fun _ h ↦ h, fun _ h ↦ h⟩
  refine ⟨hrange, hsign, fun hverified ↦ ?_, haccepted 60 (by decide) (by decide),
    haccepted 160 (by decide) (by decide), fun hverified ↦ ?_⟩
  · obtain ⟨-, hclock, -⟩ := (hiff 59 claims).1 hverified
    exact absurd hclock (by decide)
  · obtain ⟨-, -, -, hcurrent, -⟩ := (hiff 161 claims).1 hverified
    exact absurd hcurrent (by decide)

/-- A token whose claims hold is not accepted at all times: not a second before the first minute of
the clock is over. -/
theorem not_forall_verify_sign :
    ¬ ∀ (secret : String) (issuer audience : Option String) (now : Int) (claims : Claims),
      claims.InRange →
        (verify ⟨some secret, issuer, audience⟩ now (sign secret claims) = .ok claims ↔
          0 ≤ claims.expiry ∧ now - 60 ≤ claims.expiry ∧
            (∀ name, issuer = some name → claims.issuer = some name) ∧
            ∀ name, audience = some name → claims.audience = some name) := by
  intro hall
  let claims : Claims := ⟨"operator", 4102444800, 0, none, none⟩
  have hrange : claims.InRange := ⟨by decide, by decide⟩
  have haccepted := (hall "secret" none none 59 claims hrange).2
    ⟨by decide, by decide, nofun, nofun⟩
  rw [verify_signed "secret" none none 59 hrange] at haccepted
  have hbroken : checkClaims ⟨some "secret", none, none⟩ 59 false claims =
      .error .clockTooEarly := by
    decide
  rw [hbroken] at haccepted
  cases haccepted

end Token

end Licensing
