import Licensing.Proofs.License.Sweep
import Licensing.Proofs.System.Counting

/-!
# What a sweep counts

A sweep counts the licenses that it expires, all at once and when it ends. Its pages count nothing
(`Expires`), they only add to the report. So a pass that comes to its end counts every status that
it has set, and a pass that is cut short by a failing listing counts none of them, however many
there were before (`pass_counts`, `not_forall_pass_counts`). Nothing is relied on, so all of this
holds with any other programs at work.

`pass_counts` rests on the loops of a sweep being followed with a contract that relies on nothing
(`Contract.lax`): whatever stands in the store, the turns of a page are a listing, a reading and
attempts (`meets_page_seen`), and `Expires` is closed under putting turns in a row.
-/

namespace Licensing.Sweep

variable {rules : Rules}

/-! ### The writes -/

/-- Every status that was to be set is `expired`, so many writes succeeded, and nothing was
counted. -/
structure Expires (turns : List Turn) (expired : Nat) : Prop where
  attempts : ∀ write ∈ Turn.statusWrites turns, write.2.1 = .expired
  succeeded : (Turn.succeeded turns).length = expired
  uncounted : ∀ counter, Turn.counted counter turns = 0

namespace Expires

variable {turns more : List Turn} {expired later : Nat}

theorem nil : Expires [] 0 := ⟨List.forall_mem_nil _, rfl, fun _ ↦ rfl⟩

theorem append (h : Expires turns expired) (h' : Expires more later) :
    Expires (turns ++ more) (expired + later) where
  attempts := by
    rw [Turn.statusWrites_append]
    exact List.forall_mem_append.2 ⟨h.attempts, h'.attempts⟩
  succeeded := by rw [Turn.succeeded_append, List.length_append, h.succeeded, h'.succeeded]
  uncounted counter := by rw [Turn.counted_append, h.uncounted, h'.uncounted]

/-- A turn that sets no status and counts nothing. -/
theorem cons_idle {turn : Turn} (hwrite : turn.statusWrite? = none)
    (hcount : ∀ counter, turn.amount counter = 0) (h : Expires turns expired) :
    Expires (turn :: turns) expired where
  attempts := by
    rw [Turn.statusWrites, List.filterMap_cons_none hwrite]
    exact h.attempts
  succeeded := by
    rw [Turn.succeeded, Turn.statusWrites, List.filterMap_cons_none hwrite]
    exact h.succeeded
  uncounted counter := by rw [Turn.counted_cons, hcount, h.uncounted]

end Expires

/-- Writing one license after another counts nothing. -/
theorem meets_expireAll_expires (trigger : Trigger) (licenses : List License) (x : Shared) :
    Contract.lax.Meets rules (expireAll trigger licenses)
      (fun turns counts _ ↦ Expires turns counts.1) x := by
  induction licenses generalizing x with
  | nil => exact .nil
  | cons license rest ih =>
    refine meets_expireAll_cons.2 fun y _ chance _ ↦ ⟨trivial, ?_⟩
    rcases y.perform chance (attempt license) with ⟨failure | -, z⟩
    · have hfailed : Expires [⟨attempt license, .error failure⟩] 0 :=
        ⟨List.forall_mem_singleton.2 rfl, rfl, fun _ ↦ rfl⟩
      exact fun w _ _ _ ↦ ⟨trivial, (ih w).mono fun turns counts _ h ↦
        Nat.zero_add counts.1 ▸ hfailed.append (h.cons_idle rfl fun _ ↦ rfl)⟩
    · have hwritten : Expires [⟨attempt license, .ok ()⟩] 1 :=
        ⟨List.forall_mem_singleton.2 rfl, rfl, fun _ ↦ rfl⟩
      exact (ih z).mono fun turns counts _ h ↦ Nat.add_comm 1 counts.1 ▸ hwritten.append h

/-! ### The pages -/

/-- What is seen of a listing that failed: no other turn comes after it. -/
def Unlisted (turns : List Turn) (failure : Failure) : Prop :=
  ∃ before query, turns = before ++ [⟨.store (.list query), .error failure⟩]

/-- What is seen of one page. -/
def PageSeen (progress : Progress) (turns : List Turn) (result : Except Failure (Progress × Bool)) :
    Prop :=
  ∃ expired, Expires turns expired ∧ match result with
    | .ok (next, _) => next.report.expired = progress.report.expired + expired
    | .error failure => Unlisted turns failure

theorem meets_page_seen (limit : Nat) (progress : Progress) (x : Shared) :
    Contract.lax.Meets rules (page limit progress)
      (fun turns result _ ↦ PageSeen progress turns result) x := by
  refine meets_page.2 fun y _ chance _ ↦ ⟨trivial, ?_⟩
  split
  · refine fun z _ _ _ ↦ ⟨trivial, (meets_expireAll_expires _ _ z).mono fun turns counts _ h ↦ ?_⟩
    exact ⟨counts.1, (h.cons_idle rfl fun _ ↦ rfl).cons_idle rfl fun _ ↦ rfl, rfl⟩
  · exact ⟨0, Expires.nil.cons_idle rfl fun _ ↦ rfl, [], _, rfl⟩

/-- What is seen of all pages. -/
def PagesSeen (progress : Progress) (turns : List Turn) (result : Except Failure (Option Report)) :
    Prop :=
  ∃ expired, Expires turns expired ∧ match result with
    | .ok (some report) => report.expired = progress.report.expired + expired
    | .ok none => True
    | .error failure => Unlisted turns failure

/-- **One page after another** counts nothing; what was expired is in the report. -/
theorem meets_pages_seen (limit most : Nat) (progress : Progress) (x : Shared) :
    Contract.lax.Meets rules (pages limit most progress)
      (fun turns result _ ↦ PagesSeen progress turns result) x := by
  induction most generalizing progress x with
  | zero => exact ⟨0, .nil, trivial⟩
  | succ most ih =>
    refine meets_pages_succ.2 ((meets_page_seen limit progress x).mono ?_)
    rintro turns (failure | ⟨next, - | -⟩) y ⟨expired, hexpires, hpage⟩
    · exact ⟨expired, hexpires, hpage⟩
    · refine (ih next y).mono ?_
      rintro more result - ⟨later, hlater, hrest⟩
      refine ⟨expired + later, hexpires.append hlater, ?_⟩
      rcases result with failure | - | report
      · obtain ⟨before, query, rfl⟩ := hrest
        exact ⟨turns ++ before, query, (List.append_assoc _ _ _).symm⟩
      · trivial
      · show report.expired = progress.report.expired + (expired + later)
        rw [hrest, hpage, Nat.add_assoc]
    · exact ⟨expired, hexpires, hpage⟩

/-! ### The pass -/

/-- What is seen of a pass. If it has come to its end, its report tells how many licenses it has
expired, and so does the counter of its trigger, and no other counter has grown. If it has not, none
has, and where it has failed, the last that it did was a listing that failed. -/
def PassSeen (trigger : Trigger) (turns : List Turn) : Except Failure (Option Report) → Prop
  | .ok (some report) => report.expired = (Turn.succeeded turns).length ∧
      ∀ counter, Turn.counted counter turns =
        if counter = .expirations trigger.source then (Turn.succeeded turns).length else 0
  | .ok none => ∀ counter, Turn.counted counter turns = 0
  | .error failure => Unlisted turns failure ∧ ∀ counter, Turn.counted counter turns = 0

/-- **What a pass counts**, whatever rows fail, whatever listings fail, and whatever the others do:
every status that it sets is `expired`, and all of them are counted, or none. -/
theorem pass_counts (course : Course rules) (most limit : Nat) (trigger : Trigger) (s : System) :
    let account := course.watch (pass most limit trigger) s
    (∀ write ∈ Turn.statusWrites account.turns, write.2.1 = .expired) ∧
      PassSeen trigger account.turns account.value := by
  have hmeets : Contract.lax.Meets rules (pass most limit trigger) (fun turns result _ ↦
      (∀ write ∈ Turn.statusWrites turns, write.2.1 = .expired) ∧ PassSeen trigger turns result)
      s.toShared := by
    refine meets_pass.2 ((meets_pages_seen limit most (.start trigger) s.toShared).mono ?_)
    rintro turns (failure | - | report) y ⟨expired, hexpires, hrest⟩
    · exact ⟨hexpires.attempts, hrest, hexpires.uncounted⟩
    · exact ⟨hexpires.attempts, hexpires.uncounted⟩
    · intro z _ chance _
      have hexpired : report.expired = expired := hrest.trans (Nat.zero_add expired)
      -- The turn that counts sets no status.
      have hwrites : Turn.statusWrites (turns ++ [⟨.count (.expirations trigger.source)
          report.expired, ()⟩]) = Turn.statusWrites turns :=
        (Turn.statusWrites_append _ _).trans (List.append_nil _)
      have hsucceeded : (Turn.succeeded (turns ++ [⟨.count (.expirations trigger.source)
          report.expired, ()⟩])).length = report.expired := by
        rw [Turn.succeeded, hwrites, hexpired]
        exact hexpires.succeeded
      refine ⟨trivial, ?_, hsucceeded.symm, fun counter ↦ ?_⟩
      · rw [hwrites]
        exact hexpires.attempts
      · rw [hsucceeded, Turn.counted_append, hexpires.uncounted, Nat.zero_add]
        exact Nat.add_zero _
  exact Contract.watch_lax course hmeets

/-- A pass counts every status that it sets. -/
def CountsAll (trigger : Trigger) (turns : List Turn) : Prop :=
  Turn.counted (.expirations trigger.source) turns = (Turn.succeeded turns).length

/-- **Not every pass counts what it has expired**: there is one overdue license, and a page holds no
more; it is expired, and the listing of the next page fails. -/
theorem not_forall_pass_counts : ¬ ∀ (pauses : Nat → Nat) (failures : Nat → Option Failure)
    (most limit : Nat) (trigger : Trigger) (s : System),
    CountsAll trigger ((Course.trying pauses failures).watch (pass most limit trigger) s).turns := by
  intro hall
  let license := { License.fresh ⟨0⟩ ⟨0⟩ "K" "standard" "app" .active with expiresAt := some ⟨3⟩ }
  let failures : Nat → Option Failure := fun k ↦
    if k = 3 then some ⟨.storage, "connection reset"⟩ else none
  let account := (Course.trying (fun _ ↦ 0) failures).watch (pass 2 1 .startup)
    ⟨⟨⟨.single license, .empty⟩, ⟨5⟩⟩, []⟩
  have hcounted : Turn.counted (.expirations .startup) account.turns = 0 := by decide +kernel
  have hsucceeded : (Turn.succeeded account.turns).length = 1 := by decide +kernel
  have hall : CountsAll .startup account.turns := hall (fun _ ↦ 0) failures 2 1 .startup _
  rw [CountsAll, hsucceeded] at hall
  cases hcounted.symm.trans hall

end Licensing.Sweep
