import Licensing.License.Basic
import Licensing.Table

/-!
# The dashboard

A summary of all licenses in one pass: how many there are, how many of each status, type and
product, how many active ones expire within a window of time, and which of those expires first.
-/

namespace Licensing

/-- The license that expires first. -/
structure NextToExpire where
  key : String
  expiresAt : Instant
  product : String
  deriving DecidableEq

/-- Counts under names. -/
abbrev Tally (κ : Type) [DecidableEq κ] := Table κ Nat

namespace Tally

variable {κ : Type} [DecidableEq κ]

/-- One more under a name. -/
def add (t : Tally κ) (key : κ) : Tally κ := t.insert key ((t.get? key).getD 0 + 1)

/-- The count under a name, zero if there is none. -/
def count (t : Tally κ) (key : κ) : Nat := (t.get? key).getD 0

theorem count_add (t : Tally κ) (key wanted : κ) :
    (add t key).count wanted = t.count wanted + if wanted = key then 1 else 0 := by
  unfold count add
  rw [Table.get?_insert]
  by_cases h : wanted = key <;> simp [h]

end Tally

/-- A summary of licenses. -/
structure Dashboard where
  total : Nat
  statusCounts : Tally Status
  kindCounts : Tally String
  productCounts : Tally String
  expiringSoon : Nat
  nextToExpire : Option NextToExpire

namespace Dashboard

/-- The summary of no licenses. -/
def empty : Dashboard := ⟨0, .empty, .empty, .empty, 0, none⟩

/-- When an active license expires, if that is from `now` to `horizon`, both included. -/
def expiryWithin? (now horizon : Instant) (license : License) : Option Instant :=
  if license.status = .active then
    license.expiresAt.filter fun expiry ↦ now ≤ expiry && expiry ≤ horizon
  else none

/-- The license that expires first, of one known so far and another; the known one if they tie. -/
def sooner (known : Option NextToExpire) (license : License) (expiry : Instant) : NextToExpire :=
  match known with
  | some next => if expiry < next.expiresAt then ⟨license.key, expiry, license.product⟩ else next
  | none => ⟨license.key, expiry, license.product⟩

/-- The summary with one more license. -/
def add (now horizon : Instant) (d : Dashboard) (license : License) : Dashboard :=
  let d := { d with
    total := d.total + 1
    statusCounts := d.statusCounts.add license.status
    kindCounts := d.kindCounts.add license.kind
    productCounts := d.productCounts.add license.product }
  match expiryWithin? now horizon license with
  | none => d
  | some expiry => { d with
      expiringSoon := d.expiringSoon + 1
      nextToExpire := some (sooner d.nextToExpire license expiry) }

/-- The summary of licenses at `now`, with a window of that many seconds. -/
def ofLicenses (now : Instant) (window : Int) (licenses : List License) : Dashboard :=
  licenses.foldl (add now (now.addSeconds window)) empty

end Dashboard

end Licensing
