import Licensing.Json.Printer
import Licensing.Json.Record

/-!
# Claims of operator tokens

Who an operator is, until when and since when the token holds, who issued it and for whom. Claims
are written as a JSON object and read back from one; `iat` counts as 0 when it is left out.
-/

namespace Licensing.Token

/-- The claims of a token. -/
structure Claims where
  subject : String
  expiry : Int
  issuedAt : Int
  issuer : Option String
  audience : Option String
  deriving DecidableEq, Inhabited

namespace Claims

/-- The claims as an object; what is not there is left out. -/
def toJson (claims : Claims) : Json :=
  .object <|
    [("sub", .string claims.subject), ("exp", .int claims.expiry), ("iat", .int claims.issuedAt)] ++
      (claims.issuer.map fun s ↦ ("iss", Json.string s)).toList ++
      (claims.audience.map fun s ↦ ("aud", Json.string s)).toList

/-- The fields of the claims. -/
def slots : List (Json.Slot Claims) :=
  [.needed "sub" Json.Reader.string fun s c ↦ { c with subject := s },
    .needed "exp" Json.Reader.int64 fun n c ↦ { c with expiry := n },
    .defaulted "iat" Json.Reader.int64 fun n c ↦ { c with issuedAt := n },
    .defaulted "iss" (.optional Json.Reader.string) fun s c ↦ { c with issuer := s },
    .defaulted "aud" (.optional Json.Reader.string) fun s c ↦ { c with audience := s }]

/-- Reads claims. -/
def reader : Json.Reader Claims := .record slots ⟨"", 0, 0, none, none⟩

end Claims

/-- Passes over a value where a number is wanted, as far as a reader gets that gives up at the
first sign of another form: an array or object has to be empty. -/
def passNumberAttempt : Json.Reader Unit := do
  Json.Reader.spaces
  match ← Json.Reader.peek with
  | some '[' => emptied ']'
  | some '{' => emptied '}'
  | _ => Json.Reader.pass
where
  /-- An array or object without content. -/
  emptied (closing : Char) : Json.Reader Unit := do
    Json.Reader.skip
    Json.Reader.spaces
    Json.Reader.literal [closing]

/-- The standard claims that are looked at again once the claims have been read: only the time
before which a token does not hold is not among them, and it must be neither repeated nor
unreadable. -/
def standardReader : Json.Reader Unit :=
  .record [.defaulted "nbf" passNumberAttempt fun _ r ↦ r] ()

/-- Whether claims are written as an array, in which the standard claims are not found. -/
def isListed (text : List Char) : Bool :=
  (text.dropWhile Json.Reader.isSpace).head? = some '['

end Licensing.Token
