import Licensing.Proofs.License.Keeping
import Licensing.Proofs.System.Course

/-!
# Calls among other programs

What calls do to what is shared, where they may fail by chance. Reading changes nothing
(`perform_findByKey`, `perform_list`), and setting a status changes the one license, unless it fails
(`perform_updateStatus`). `step_perform` bounds what any call can do to the licenses.
-/

namespace Licensing

/-- What becomes of an answer, with the chance that the call fails. -/
def Chance.outcome {α : Type} (chance : Chance) (answer : Except Failure α) : Except Failure α :=
  match chance.failure with
  | some failure => .error failure
  | none => answer

theorem Chance.outcome_eq_ok_iff {α : Type} {chance : Chance} {answer : Except Failure α}
    {value : α} :
    chance.outcome answer = .ok value ↔ chance.failure = none ∧ answer = .ok value := by
  unfold outcome
  cases chance.failure <;> simp

namespace Shared

variable (x : Shared) (chance : Chance)

/-- What is shared, with the licenses replaced. -/
def withLicenses (licenses : LicenseStore) : Shared :=
  { x with stores := { x.stores with licenses } }

@[simp] theorem licenses_withLicenses (licenses : LicenseStore) :
    (x.withLicenses licenses).stores.licenses = licenses := rfl

theorem perform_findByKey (key : String) : x.perform chance (.store (.findByKey key)) =
    (chance.outcome (.ok (x.stores.licenses.findByKey key)), x) := by
  unfold perform Chance.outcome
  cases chance.failure <;> rfl

theorem perform_list (query : ListQuery) : x.perform chance (.store (.list query)) =
    (chance.outcome (.ok (x.stores.licenses.list query)), x) := by
  unfold perform Chance.outcome
  cases chance.failure <;> rfl

/-- Setting a status fails and changes nothing, or succeeds and changes the one license. -/
theorem perform_updateStatus (id : Uuid) (status : Status) :
    (∃ failure, x.perform chance (.store (.updateStatus id status)) = (.error failure, x)) ∨
      x.perform chance (.store (.updateStatus id status)) = (.ok (),
        x.withLicenses (x.stores.licenses.changed id (·.withStatus status x.now))) := by
  rcases hchance : chance.failure with - | failure
  · rw [perform_store_of_none hchance, Stores.answer_updateStatus]
    cases hstored : x.stores.licenses.byId.contains id with
    | true => exact .inr rfl
    | false =>
      refine .inl ⟨.licenseNotFound id, ?_⟩
      rw [LicenseStore.changed_of_not_contains hstored]
      rfl
  · exact .inl ⟨failure, perform_store_of_failure hchance⟩

/-- **All that a call can do to the licenses**, failing or not. -/
theorem step_perform (call : StoreCall) :
    x.stores.licenses.Step x.now call (x.perform chance (.store call)).2.stores.licenses := by
  rcases hchance : chance.failure with - | failure
  · rw [perform_store_of_none hchance]
    exact x.stores.step_answer x.now call
  · rw [perform_store_of_failure hchance]
    exact .same call

end Shared

end Licensing
