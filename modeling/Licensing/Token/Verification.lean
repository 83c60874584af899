import Licensing.Crypto.Sha256
import Licensing.Text.Base64Url
import Licensing.Token.Claims
import Licensing.Token.Header

/-!
# Verifying operator tokens

A token is a header, a payload and a signature in base64url, with points between them. It is
accepted if it is signed with the shared secret, has not expired by more than the leeway, and is
from the issuer and for the audience that are configured. The first fault in the order of `Fault`
is reported.

Seconds are counted without a sign where the leeway is taken off the time. Before the first minute
of the clock is over there is nothing to take it off, and the check breaks off (`clockTooEarly`).

`sign` makes the token of claims.
-/

namespace Licensing.Token

/-- Why a token is refused, in the order in which it is checked. Nobody is told of the clock's
fault: with it the check itself ends, and neither claims nor a failure come out of it. -/
inductive Fault
  | notThreeParts
  | badEncoding
  | badJson
  | wrongAlgorithm
  | wrongSignature
  | missingClaim
  | clockTooEarly
  | expired
  | wrongIssuer
  | wrongAudience
  deriving DecidableEq

/-- The name of a fault. -/
def Fault.name : Fault → String
  | notThreeParts => "InvalidToken"
  | badEncoding => "Base64 error"
  | badJson => "JSON error"
  | wrongAlgorithm => "InvalidAlgorithm"
  | wrongSignature => "InvalidSignature"
  | missingClaim => "Missing required claim"
  | clockTooEarly => "attempt to subtract with overflow"
  | expired => "ExpiredSignature"
  | wrongIssuer => "InvalidIssuer"
  | wrongAudience => "InvalidAudience"

/-- What tokens are checked against. Without a secret no token is accepted. -/
structure Policy where
  secret : Option String
  issuer : Option String
  audience : Option String
  deriving DecidableEq

/-- How many seconds a token is accepted after its expiry. -/
def leeway : Int := 60

/-- The signature of a message, as text. -/
def signature (secret : String) (message : List Char) : List Char :=
  Text.Base64Url.encode
    (Crypto.hmacSha256 (Text.Utf8.encodeString secret) (Text.Utf8.encode message))

/-- The text that base64url text spells. -/
def decodeText (encoded : List Char) : Except Fault (List Char) :=
  match Text.Base64Url.decode? encoded with
  | none => .error .badEncoding
  | some bytes =>
    match Text.Utf8.decode? bytes with
    | none => .error .badJson
    | some text => .ok text

/-- Reads JSON text. -/
def readJson {α : Type} (reader : Json.Reader α) (text : List Char) : Except Fault α :=
  match Json.Reader.run reader text with
  | .ok a => .ok a
  | .error _ => .error .badJson

/-- Checks claims against the policy at a time, in seconds. Claims that are given as a list count as
missing. -/
def checkClaims (policy : Policy) (now : Int) (listed : Bool) (claims : Claims) :
    Except Fault Unit :=
  if listed || claims.expiry < 0 || (policy.issuer.isSome && claims.issuer = none) ||
      (policy.audience.isSome && claims.audience = none) then .error .missingClaim
  else if now < leeway then .error .clockTooEarly
  else if claims.expiry < now - leeway then .error .expired
  else if policy.issuer.isSome && claims.issuer ≠ policy.issuer then .error .wrongIssuer
  else if policy.audience.isSome && claims.audience ≠ policy.audience then .error .wrongAudience
  else .ok ()

/-- The claims of a token, if it is accepted at a time, in seconds. -/
def verify (policy : Policy) (now : Int) (token : List Char) : Except Fault Claims := do
  let (message, signed) ← orElse (Text.cutLast '.' token) .notThreeParts
  let (header, payload) ← orElse (Text.cutLast '.' message) .notThreeParts
  let header ← readJson Header.reader (← decodeText header)
  if header.algorithm ≠ .hs256 then throw .wrongAlgorithm
  if policy.secret.all fun secret ↦ signed ≠ signature secret message then throw .wrongSignature
  let text ← decodeText payload
  let claims ← readJson Claims.reader text
  readJson standardReader text
  checkClaims policy now (isListed text) claims
  return claims
where
  /-- The value, or a fault in place of none. -/
  orElse {α : Type} (value : Option α) (fault : Fault) : Except Fault α :=
    match value with
    | some a => .ok a
    | none => .error fault

/-- The header of the tokens made here. -/
def headerText : List Char := "\x7b\"typ\":\"JWT\",\"alg\":\"HS256\"\x7d".toList

/-- The token of claims. -/
def sign (secret : String) (claims : Claims) : List Char :=
  let message := Text.Base64Url.encode (Text.Utf8.encode headerText) ++
    '.' :: Text.Base64Url.encode (Text.Utf8.encode claims.toJson.text)
  message ++ '.' :: signature secret message

end Licensing.Token
