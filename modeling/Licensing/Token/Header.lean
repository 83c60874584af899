import Licensing.Json.Record

/-!
# Headers of tokens

The header names the algorithm of the signature and may hold further standard fields, which have
to be of their types and are not used.
-/

namespace Licensing.Token

/-- The algorithms that have a name. -/
inductive Algorithm
  | hs256 | hs384 | hs512
  | es256 | es384
  | rs256 | rs384 | rs512
  | ps256 | ps384 | ps512
  | eddsa
  deriving DecidableEq, Inhabited

namespace Algorithm

/-- All algorithms. -/
def all : List Algorithm :=
  [hs256, hs384, hs512, es256, es384, rs256, rs384, rs512, ps256, ps384, ps512, eddsa]

/-- The name of an algorithm. -/
def name : Algorithm → String
  | hs256 => "HS256"
  | hs384 => "HS384"
  | hs512 => "HS512"
  | es256 => "ES256"
  | es384 => "ES384"
  | rs256 => "RS256"
  | rs384 => "RS384"
  | rs512 => "RS512"
  | ps256 => "PS256"
  | ps384 => "PS384"
  | ps512 => "PS512"
  | eddsa => "EdDSA"

/-- The algorithm of that name. -/
def ofName? (text : String) : Option Algorithm := all.find? (·.name == text)

end Algorithm

/-- A header. -/
structure Header where
  algorithm : Algorithm
  deriving DecidableEq

namespace Header

private def stringField (fields : Json.Fields) (name : String) : Bool :=
  ((fields.get? name).bind Json.string?).isSome

private def absentOrString (fields : Json.Fields) (name : String) : Bool :=
  match fields.get? name with
  | none => true
  | some .null => true
  | some (.string _) => true
  | some _ => false

private def strings (value : Json) : Bool :=
  match value with
  | .array items => items.all (·.string?.isSome)
  | _ => false

private def absentOrStrings (fields : Json.Fields) (name : String) : Bool :=
  match fields.get? name with
  | none => true
  | some .null => true
  | some value => strings value

/-- Whether a value describes a key: its common fields of their types, and the fields that its type
calls for. -/
def describesKey (value : Json) : Bool :=
  match value.fields? with
  | none => false
  | some fields =>
    ["use", "alg", "kid", "x5u", "x5t", "x5t#S256"].all (absentOrString fields) &&
      ["key_ops", "x5c"].all (absentOrStrings fields) &&
      match (fields.get? "kty").bind Json.string? with
      | some "EC" => ["crv", "x", "y"].all (stringField fields)
      | some "RSA" => ["n", "e"].all (stringField fields)
      | some "oct" => stringField fields "k"
      | some "OKP" => ["crv", "x"].all (stringField fields)
      | _ => false

private def text (name : String) : Json.Slot Header :=
  .placed name (.optional Json.Reader.string) fun _ h ↦ h

/-- The fields of a header. -/
def slots : List (Json.Slot Header) :=
  [text "typ",
    .needed "alg" (.word Algorithm.ofName?) fun a h ↦ { h with algorithm := a },
    text "cty",
    text "jku",
    .placed "jwk" (.optional keyDescription) fun _ h ↦ h,
    text "kid",
    text "x5u",
    .placed "x5c" (.optional stringList) fun _ h ↦ h,
    text "x5t",
    text "x5t#S256"]
where
  /-- A description of a key. -/
  keyDescription : Json.Reader Unit := do
    if describesKey (← Json.Reader.value 126) then return () else Json.Reader.mismatched
  /-- A list of strings. -/
  stringList : Json.Reader Unit := do
    if strings (← Json.Reader.value 126) then return () else Json.Reader.mismatched

/-- Reads a header. -/
def reader : Json.Reader Header := .record slots ⟨.hs256⟩

end Header

end Licensing.Token
