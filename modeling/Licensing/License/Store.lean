import Licensing.Failure
import Licensing.License.Dashboard
import Licensing.License.Listing
import Licensing.Table

/-!
# The license store

Licenses under their identifiers, and an index from keys to identifiers. `Indexed` says that the two
agree; every operation keeps it. A refused operation leaves the store as it was, and no operation
removes a license.

Listings and the dashboard walk the licenses in the order of the table. A listing sorts them and
breaks every tie by the identifier. The dashboard breaks none: of several licenses that are the next
to expire at the same time it names the first that it comes to.
-/

namespace Licensing

/-- The license store. -/
structure LicenseStore where
  byId : Table Uuid License
  byKey : Table String Uuid
  deriving Inhabited

namespace LicenseStore

/-- The store without licenses. -/
def empty : LicenseStore := ⟨.empty, .empty⟩

/-- All licenses. -/
def licenses (store : LicenseStore) : List License := store.byId.values

/-- The index fits the licenses: each is stored under its identifier, and the index leads from a
key to the license that has it and from no other text anywhere. -/
structure Indexed (store : LicenseStore) : Prop where
  id_eq : ∀ {id license}, store.byId.get? id = some license → license.id = id
  byKey_iff : ∀ {key id}, store.byKey.get? key = some id ↔
    ∃ license, store.byId.get? id = some license ∧ license.key = key

/-- Adds a license whose key and identifier are new. -/
def create (store : LicenseStore) (license : License) : Except Failure LicenseStore :=
  if store.byKey.contains license.key then .error .licenseKeyTaken
  else if store.byId.contains license.id then .error (.licenseIdTaken license.id)
  else .ok ⟨store.byId.insert license.id license, store.byKey.insert license.key license.id⟩

/-- The license of an identifier. -/
def findById (store : LicenseStore) (id : Uuid) : Option License := store.byId.get? id

/-- The license of a key. -/
def findByKey (store : LicenseStore) (key : String) : Option License :=
  (store.byKey.get? key).bind store.byId.get?

/-- Changes the license of an identifier, if there is one. -/
def change (store : LicenseStore) (id : Uuid) (f : License → License) :
    Except Failure LicenseStore :=
  if store.byId.contains id then .ok { store with byId := store.byId.modify id f }
  else .error (.licenseNotFound id)

/-- Sets a status. -/
def updateStatus (store : LicenseStore) (id : Uuid) (status : Status) (now : Instant) :
    Except Failure LicenseStore :=
  store.change id (·.withStatus status now)

/-- Sets the metadata. -/
def updateMetadata (store : LicenseStore) (id : Uuid) (metadata : Json) (now : Instant) :
    Except Failure LicenseStore :=
  store.change id (·.withMetadata (some metadata) now)

/-- A stored license with the editable fields of another. -/
def edited (edit : License) (now : Instant) (stored : License) : License :=
  ((((((stored.withKind edit.kind now).withProduct edit.product now).withCustomerName
    edit.customerName now).withCustomerEmail edit.customerEmail now).withExpiry
    edit.expiresAt now).withMetadata edit.metadata now)

/-- Sets the editable fields of the license with the same identifier: type, product, customer,
expiry and metadata. -/
def update (store : LicenseStore) (edit : License) (now : Instant) : Except Failure LicenseStore :=
  store.change edit.id (edited edit now)

/-- A page of licenses. -/
def list (store : LicenseStore) (query : ListQuery) : Page := query.page store.licenses

/-- The dashboard at `now`, with a window in seconds. -/
def dashboard (store : LicenseStore) (now : Instant) (window : Int) : Dashboard :=
  .ofLicenses now window store.licenses

end LicenseStore

end Licensing
