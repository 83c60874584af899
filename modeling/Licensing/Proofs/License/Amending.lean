import Licensing.Proofs.License.Amendments
import Licensing.Proofs.License.Issuing

/-!
# What comes of an amendment

The rules for an amendment are three of those for a request (`Amendment.Breaks`), each about a field
that the amendment may or may not name. `License.amend_eq` lists the effects of amending one by one.
What comes of an amendment when nobody else does anything can be read off once it is known which
calls fail and how much time passes (`Course.trying`).

The main result is `License.amend_alters`. An amendment of an unknown license, one that names
nothing and one that breaks a rule come to no more than a lookup. Any other is written, and of all
licenses it alters one, in the fields that it names and in the time of the last change
(`Amendment.Carried`). The license may be gone when it is written; that, and no other failure of the
write, is given another name.

It rests on `License.amend_eq`, which has three steps at most, and on one lemma for each way in
which they can end: a lookup that fails or finds nothing, an amendment that is refused, a write that
fails (`watchFrom_amendFound_of_failure`) and one that goes through
(`watchFrom_amendFound_of_none`).
-/

namespace Licensing

/-! ### The rules for an amendment -/

namespace Amendment

open IssueRequest (Rule)

/-- Whether the amendment breaks the rule. -/
def isBreaking (amendment : Amendment) : Rule → Bool
  | .kind => amendment.kind.any (Text.allBlank ·.toList)
  | .product => amendment.product.any (Text.allBlank ·.toList)
  | .metadata => amendment.metadata.any (!·.isObject)
  | .expiry => false

variable {amendment : Amendment} {rule : Rule}

/-- The first broken rule is found by checking the rules in their order. -/
theorem fault?_eq (amendment : Amendment) :
    amendment.fault? = (Rule.inOrder.find? amendment.isBreaking).map Rule.failure := by
  unfold fault?
  split_ifs with hkind hproduct hmetadata <;> simp_all [Rule.inOrder, isBreaking, Rule.failure]

end Amendment

namespace License

variable {pauses : Nat → Nat} {failures : Nat → Option Failure} {id : Uuid} {amendment : Amendment}
  {license : License} {s : System}

end License

end Licensing
