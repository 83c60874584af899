import Licensing.License.Issuing

/-!
# Amending licenses

An amendment names the fields to change. It is applied to a copy of the license as read, which is
then written back. An amendment that names nothing writes nothing.
-/

namespace Licensing

/-- The fields to change. -/
structure Amendment where
  kind : Option String := none
  product : Option String := none
  customerName : Option String := none
  customerEmail : Option String := none
  expiresAt : Option Instant := none
  metadata : Option Json := none
  deriving DecidableEq

namespace Amendment

/-- Whether nothing is named. -/
def isEmpty (amendment : Amendment) : Bool := amendment = {}

/-- The first rule that the amendment breaks: type and product must not be blank, metadata must be
an object. -/
def fault? (amendment : Amendment) : Option Failure :=
  if amendment.kind.any (Text.allBlank ·.toList) then some (.blankField "type")
  else if amendment.product.any (Text.allBlank ·.toList) then some (.blankField "product_name")
  else if amendment.metadata.any (!·.isObject) then some .metadataNotObject
  else none

/-- The license with the named fields replaced. -/
def apply (amendment : Amendment) (license : License) : License :=
  { license with
    kind := amendment.kind.getD license.kind
    product := amendment.product.getD license.product
    customerName := amendment.customerName.or license.customerName
    customerEmail := amendment.customerEmail.or license.customerEmail
    expiresAt := amendment.expiresAt.or license.expiresAt
    metadata := amendment.metadata.or license.metadata }

end Amendment

/-- Reports a license that vanished between reading and writing as one that could not be updated. -/
def Failure.ofLostUpdate (id : Uuid) (failure : Failure) : Failure :=
  if failure.kind = .notFound then .licenseNotUpdated id else failure

/-- Amends a license; the license as stored afterwards. -/
def License.amend (id : Uuid) (amendment : Amendment) : Operation License := do
  let license ← License.fetch id
  if amendment.isEmpty then return license
  match amendment.fault? with
  | some fault => throw fault
  | none =>
    tryCatch (Operation.call (.update (amendment.apply license))) fun failure ↦
      throw (failure.ofLostUpdate id)

end Licensing
