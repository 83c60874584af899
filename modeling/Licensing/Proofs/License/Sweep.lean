import Licensing.License.Sweep
import Licensing.Proofs.Listing.Order
import Licensing.Proofs.System.Calls
import Licensing.Proofs.System.Contract

/-!
# Sweeps effect by effect

How a contract is followed through a sweep (`Contract.Meets`): writing one license after another
(`meets_expireAll_cons`), one page (`meets_page`), one page after another (`meets_pages_succ`). All
that is proved of sweeps is an induction over these three. The first such result is that a sweep
keeps any pact that lets it expire what it found active and overdue (`keeps_pass`).

The three are equivalences, so nothing is lost by going through them, and they hold of every
contract: on its own, among peers, or with nothing promised at all. A sweep that is written in
another way has to satisfy them again, and then all that rests on them stands.
-/

namespace Licensing.Sweep

variable {contract : Contract} {rules : Rules}

/-! ### Writing -/

/-- The attempt to expire a license. -/
abbrev attempt (license : License) : Effect := .store (.updateStatus license.id .expired)

theorem meets_expireAll_cons {trigger : Trigger} {license : License} {rest : List License}
    {post : Post (Nat × Nat)} {x : Shared} :
    contract.Meets rules (expireAll trigger (license :: rest)) post x ↔
      ∀ y, contract.Relies x y → ∀ chance, rules.Befalls y (attempt license) chance →
        let done := y.perform chance (attempt license)
        contract.Does y (attempt license) done.2 ∧ match done.1 with
          | .ok () =>
            contract.Meets rules (expireAll trigger rest)
              (fun turns counts ↦
                post (⟨attempt license, .ok ()⟩ :: turns) (counts.1 + 1, counts.2)) done.2
          | .error failure =>
            let entry := Effect.log (expiryFailed license.id trigger failure)
            ∀ z, contract.Relies done.2 z → ∀ chance, rules.Befalls z entry chance →
              contract.Does z entry z ∧
                contract.Meets rules (expireAll trigger rest)
                  (fun turns counts ↦
                    post (⟨attempt license, .error failure⟩ :: ⟨entry, ()⟩ :: turns)
                      (counts.1, counts.2 + 1)) z := by
  refine forall₂_congr fun y _ ↦ forall₂_congr fun chance _ ↦ and_congr_right fun _ ↦ ?_
  rcases y.perform chance (attempt license) with ⟨failure | value, z⟩
  · refine forall₂_congr fun w _ ↦ forall₂_congr fun chance _ ↦ and_congr_right fun _ ↦ ?_
    exact Contract.meets_map
  · exact Contract.meets_map

/-! ### Pages -/

/-- Where a sweep stands after a page, given what was listed and how many writes succeeded and
failed. -/
def Progress.after (progress : Progress) (listed : Page) (counts : Nat × Nat) : Progress where
  report := { progress.report with
    pages := progress.report.pages + 1
    scanned := progress.report.scanned + listed.items.length
    expired := progress.report.expired + counts.1
    failed := progress.report.failed + counts.2 }
  offset := progress.offset + (listed.items.length - counts.1)

/-- Whether a page was the last. -/
def Progress.ends (progress : Progress) (limit : Nat) (listed : Page) (counts : Nat × Nat) : Bool :=
  listed.items.length < limit || (progress.report.trigger = .scheduled && 0 < listed.total &&
    listed.total < (progress.after listed counts).offset)

/-- **One page**: it is listed, the clock is read, and what is overdue by then is expired. -/
theorem meets_page {limit : Nat} {progress : Progress}
    {post : Post (Except Failure (Progress × Bool))} {x : Shared} :
    let listing := Effect.store (.list (.activeByExpiry limit progress.offset))
    contract.Meets rules (page limit progress) post x ↔
      ∀ y, contract.Relies x y → ∀ chance, rules.Befalls y listing chance →
        let done := y.perform chance listing
        contract.Does y listing done.2 ∧ match done.1 with
          | .ok listed =>
            ∀ z, contract.Relies done.2 z → ∀ chance, rules.Befalls z .clock chance →
              contract.Does z .clock z ∧
                contract.Meets rules
                  (expireAll progress.report.trigger (listed.items.filter (·.isExpiredAt z.now)))
                  (fun turns counts ↦ post (⟨listing, .ok listed⟩ :: ⟨.clock, z.now⟩ :: turns)
                    (.ok (progress.after listed counts, progress.ends limit listed counts))) z
          | .error failure => post [⟨listing, .error failure⟩] (.error failure) done.2 := by
  refine Contract.meets_call_bind.trans ?_
  refine forall₂_congr fun y _ ↦ forall₂_congr fun chance _ ↦ and_congr_right fun _ ↦ ?_
  rcases y.perform chance (.store (.list (.activeByExpiry limit progress.offset))) with
    ⟨failure | listed, z⟩
  · exact Iff.rfl
  · refine Contract.meets_clock_bind.trans ?_
    refine forall₂_congr fun w _ ↦ forall₂_congr fun chance _ ↦ and_congr_right fun _ ↦ ?_
    -- What is written cannot fail, so it is a program with a result and no failure to hand on.
    exact (iff_of_eq (congrArg (contract.Meets rules · _ w) (Program.bind_assoc _ _ _))).trans
      Contract.meets_map

/-- **One page after another**, until one is the last. -/
theorem meets_pages_succ {limit most : Nat} {progress : Progress}
    {post : Post (Except Failure (Option Report))} {x : Shared} :
    contract.Meets rules (pages limit (most + 1) progress) post x ↔
      contract.Meets rules (page limit progress)
        (fun turns result y ↦ match result with
          | .ok (next, true) => post turns (.ok (some next.report)) y
          | .ok (next, false) =>
            contract.Meets rules (pages limit most next) (fun more ↦ post (turns ++ more)) y
          | .error failure => post turns (.error failure) y) x := by
  refine Contract.meets_operation_bind.trans (Contract.meets_congr ?_)
  rintro turns (failure | ⟨next, - | -⟩) y
  · exact Iff.rfl
  · exact Iff.rfl
  · show post (turns ++ []) (.ok (some next.report)) y ↔ _
    rw [List.append_nil]

/-- A pass is its pages, and the expirations are counted if it ends. -/
theorem meets_pass {most limit : Nat} {trigger : Trigger}
    {post : Post (Except Failure (Option Report))} {x : Shared} :
    contract.Meets rules (pass most limit trigger) post x ↔
      contract.Meets rules (pages limit most (.start trigger))
        (fun turns result y ↦ match result with
          | .ok (some report) =>
            let counting := Effect.count (.expirations trigger.source) report.expired
            ∀ z, contract.Relies y z → ∀ chance, rules.Befalls z counting chance →
              contract.Does z counting z ∧ post (turns ++ [⟨counting, ()⟩]) (.ok (some report)) z
          | .ok none => post turns (.ok none) y
          | .error failure => post turns (.error failure) y) x := by
  refine Contract.meets_operation_bind.trans (Contract.meets_congr ?_)
  rintro turns (failure | - | report) y
  · exact Iff.rfl
  · show post (turns ++ []) (.ok none) y ↔ _
    rw [List.append_nil]
  · exact Iff.rfl

/-! ### Sweeps under a pact -/

theorem mem_listed {store : LicenseStore} {limit offset : Nat} {license : License}
    (h : license ∈ (store.list (.activeByExpiry limit offset)).items) :
    license ∈ store.licenses ∧ license.status = .active := by
  obtain ⟨hmem, hadmits⟩ := ListQuery.mem_of_mem_page h
  rw [ListQuery.admits_activeByExpiry] at hadmits
  exact ⟨hmem, of_decide_eq_true hadmits⟩

variable {pact : Pact}

/-- Writing keeps a pact that every single attempt keeps. -/
theorem keeps_expireAll {trigger : Trigger} {licenses : List License} {x : Shared}
    (hwrite : ∀ license ∈ licenses, ∀ y, pact.Leads x y → pact.Holds y → ∀ chance,
      pact.contract.Does y (attempt license) (y.perform chance (attempt license)).2) :
    pact.contract.Meets rules (expireAll trigger licenses) (fun _ _ _ ↦ True) x := by
  induction licenses generalizing x with
  | nil => trivial
  | cons license rest ih =>
    refine meets_expireAll_cons.2 fun y ⟨hy, hxy⟩ chance _ ↦ ?_
    have hdoes := hwrite license List.mem_cons_self y hxy hy chance
    have hlater : ∀ {z}, pact.Leads (y.perform chance (attempt license)).2 z → ∀ other ∈ rest,
        ∀ w, pact.Leads z w → pact.Holds w → ∀ chance,
          pact.contract.Does w (attempt other) (w.perform chance (attempt other)).2 :=
      fun hyz other hother w hzw ↦ hwrite other (List.mem_cons_of_mem license hother) w
        (pact.trans hxy (pact.trans hdoes.2.1 (pact.trans hyz hzw)))
    refine ⟨hdoes, ?_⟩
    split
    · exact ih (hlater (pact.refl _))
    · exact fun z ⟨hz, hyz⟩ _ _ ↦ ⟨Pact.does_nothing hz rfl, ih (hlater hyz)⟩

/-- **A sweep keeps a pact** that lets it expire what it found active and later overdue. -/
theorem keeps_pass (hwrite : ∀ {x y z : Shared} {license : License}, pact.Holds x →
      license ∈ x.stores.licenses.licenses → license.status = .active → pact.Leads x y →
      license.isExpiredAt y.now = true → pact.Leads y z → pact.Holds z → ∀ chance,
      pact.contract.Does z (attempt license) (z.perform chance (attempt license)).2)
    (most limit : Nat) (trigger : Trigger) (x : Shared) :
    pact.Keeps rules (pass most limit trigger).job x := by
  have hpage : ∀ progress x,
      pact.contract.Meets rules (page limit progress) (fun _ _ _ ↦ True) x := by
    intro progress x
    refine meets_page.2 fun y ⟨hy, _⟩ chance _ ↦ ?_
    rw [Shared.perform_list]
    refine ⟨Pact.does_nothing hy rfl, ?_⟩
    split
    · next listed hlisted =>
      cases (Chance.outcome_eq_ok_iff.1 hlisted).2
      refine fun z ⟨hz, hyz⟩ _ _ ↦ ⟨Pact.does_nothing hz rfl, keeps_expireAll ?_⟩
      intro license hlicense w hzw hw
      obtain ⟨hlicense, hexpired⟩ := List.mem_filter.1 hlicense
      obtain ⟨hmem, hactive⟩ := mem_listed hlicense
      exact hwrite hy hmem hactive hyz hexpired hzw hw
    · trivial
  have hpages : ∀ progress x,
      pact.contract.Meets rules (pages limit most progress) (fun _ _ _ ↦ True) x := by
    induction most with
    | zero => exact fun _ _ ↦ trivial
    | succ most ih =>
      refine fun progress x ↦ meets_pages_succ.2 ((hpage progress x).mono ?_)
      rintro turns (failure | ⟨next, - | -⟩) y -
      · trivial
      · exact ih next y
      · trivial
  refine Contract.meets_job (meets_pass.2 ((hpages (.start trigger) x).mono ?_))
  rintro turns (failure | - | report) y -
  · trivial
  · trivial
  · exact fun z ⟨hz, _⟩ _ _ ↦ ⟨Pact.does_nothing hz rfl, trivial⟩

end Licensing.Sweep
