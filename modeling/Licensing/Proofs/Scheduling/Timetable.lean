import Mathlib.Algebra.Order.Ring.Nat
import Mathlib.Order.Monotone.Basic
import Mathlib.Tactic.Ring
import Licensing.Scheduler

/-!
# The timetable of a job

When the runs of a job start follows from its interval, from how long each of its runs takes and
from when the loop was started, and from nothing else: `Job.slot` computes it, one run after the
other. How the runs end does not come into it.

Of the runtime, only two things are needed (`Runtime.Regular`): that the next tick is some intervals
after the last one, and that it is no more than one interval after the moment at which that one was
taken. Skipping the ticks that were missed does both (`Runtime.regular_default`).

`Job.Timely` says what the starts keep to and `Job.GoesOn` that none of them is missing;
`Job.timely_timetable` and `Job.goesOn_timetable` say that the timetable does so.

Both are inductions on the runs, from one slot to the next (`pace_slot`, `apart_slot`,
`cause_slot`). How long a run takes is a parameter throughout, so a run that outlasts its interval
is no special case.
-/

namespace Licensing

/-! ### Ticks -/

/-- Ticks fall on multiples of the interval, and none is further away than one interval. -/
structure Runtime.Regular (runtime : Runtime) : Prop where
  multiple {every due now : Nat} : 0 < every → due ≤ now →
    ∃ missed, runtime.nextTick every due now = due + (missed + 1) * every
  soon {every due now : Nat} : 0 < every → due ≤ now →
    runtime.nextTick every due now ≤ now + every

/-- Skipping the ticks that were missed leaves the other ones where they are. -/
theorem Runtime.regular_default : ({} : Runtime).Regular where
  multiple {every due now} hevery hdue := by
    show ∃ missed, skipMissed every due now = due + (missed + 1) * every
    unfold skipMissed
    split
    · -- As many intervals have passed since the tick as were missed.
      refine ⟨(now - due) / every, ?_⟩
      have hsplit := Nat.div_add_mod (now - due) every
      have hrest := Nat.mod_lt (now - due) hevery
      rw [Nat.add_mul, Nat.one_mul, Nat.mul_comm]
      omega
    · exact ⟨0, by omega⟩
  soon {every due now} hevery hdue := by
    show skipMissed every due now ≤ now + every
    unfold skipMissed
    split <;> omega

/-- Of the ticks at 40, 60 and 80, the one in the middle is missed. -/
example : skipMissed 20 40 70 = 80 := by decide

/-! ### Runs -/

/-- What leads to a run: when the loop was ready for it, and when its tick was due. -/
structure Slot where
  ready : Nat
  due : Nat

/-- When the run starts. -/
def Slot.starts (slot : Slot) : Nat := max slot.ready slot.due

namespace Job

/-- The slots of the runs of a job whose loop was started at a time. -/
def slot (job : Job) (runtime : Runtime) (start : Nat) : Nat → Slot
  | 0 => ⟨start, start + job.every⟩
  | k + 1 =>
    let slot := job.slot runtime start k
    ⟨slot.starts + (job.run k).duration, runtime.nextTick job.every slot.due slot.starts⟩

/-- The starts of the first runs of a job. -/
def timetable (job : Job) (runtime : Runtime) (start runs : Nat) : List Nat :=
  (List.range runs).map fun k ↦ (job.slot runtime start k).starts

/-- What the starts of the runs of a job keep to, if its loop was started at a time. -/
structure Timely (job : Job) (start : Nat) (starts : List Nat) : Prop where
  /-- No run starts before the earlier ones have ended. -/
  apart {i j s t : Nat} : i < j → starts[i]? = some s → starts[j]? = some t →
    s + (job.run i).duration ≤ t
  /-- Each run starts no earlier than its turn. -/
  pace {k s : Nat} : starts[k]? = some s → start + (k + 1) * job.every ≤ s
  /-- There are no more runs than there were intervals. -/
  count (time : Nat) : starts.countP (· ≤ time) ≤ (time - start) / job.every
  /-- Each run starts at a multiple of the interval, or directly after the one before has ended. -/
  cause {k s : Nat} : starts[k]? = some s → (∃ m, s = start + m * job.every) ∨
    ∃ i t, k = i + 1 ∧ starts[i]? = some t ∧ s = t + (job.run i).duration

/-- The runs of a job have gone on until now, however they ended: the first one when the interval
had passed, and each other one when it had passed again and the run before had ended. -/
structure GoesOn (job : Job) (start now : Nat) (starts : List Nat) : Prop where
  first : start + job.every < now → starts ≠ []
  next {k s : Nat} : starts[k]? = some s → s + max (job.run k).duration job.every < now →
    ∃ t, starts[k + 1]? = some t ∧ t ≤ s + max (job.run k).duration job.every

variable {job : Job} {runtime : Runtime} {start : Nat}

theorem slot_succ_due (job : Job) (runtime : Runtime) (start k : Nat) :
    (job.slot runtime start (k + 1)).due = runtime.nextTick job.every
      (job.slot runtime start k).due (job.slot runtime start k).starts :=
  rfl

theorem slot_succ_ready (job : Job) (runtime : Runtime) (start k : Nat) :
    (job.slot runtime start (k + 1)).ready =
      (job.slot runtime start k).starts + (job.run k).duration :=
  rfl

theorem due_le_starts (job : Job) (runtime : Runtime) (start k : Nat) :
    (job.slot runtime start k).due ≤ (job.slot runtime start k).starts :=
  Nat.le_max_right _ _

theorem ready_le_starts (job : Job) (runtime : Runtime) (start k : Nat) :
    (job.slot runtime start k).ready ≤ (job.slot runtime start k).starts :=
  Nat.le_max_left _ _

/-- The ticks that are taken are multiples of the interval, each after more of them than there were
runs. -/
theorem exists_due_eq (hruntime : runtime.Regular) (hevery : 0 < job.every) (start k : Nat) :
    ∃ missed, (job.slot runtime start k).due = start + (k + 1 + missed) * job.every := by
  induction k with
  | zero =>
    refine ⟨0, ?_⟩
    show start + job.every = start + 1 * job.every
    rw [Nat.one_mul]
  | succ k ih =>
    obtain ⟨earlier, hdue⟩ := ih
    obtain ⟨missed, hnext⟩ := hruntime.multiple hevery (due_le_starts job runtime start k)
    refine ⟨earlier + missed, ?_⟩
    rw [slot_succ_due, hnext, hdue]
    ring

/-- **A run starts no earlier than its turn.** -/
theorem pace_slot (hruntime : runtime.Regular) (hevery : 0 < job.every) (start k : Nat) :
    start + (k + 1) * job.every ≤ (job.slot runtime start k).starts := by
  obtain ⟨missed, hdue⟩ := exists_due_eq hruntime hevery start k
  have hstarts := due_le_starts job runtime start k
  have hturn : (k + 1) * job.every ≤ (k + 1 + missed) * job.every :=
    Nat.mul_le_mul_right job.every (Nat.le_add_right (k + 1) missed)
  omega

/-- A run starts as soon as the one before has ended and an interval has passed. -/
theorem starts_succ_le (hruntime : runtime.Regular) (hevery : 0 < job.every) (start k : Nat) :
    (job.slot runtime start (k + 1)).starts ≤
      (job.slot runtime start k).starts + max (job.run k).duration job.every := by
  have hsoon := hruntime.soon hevery (due_le_starts job runtime start k)
  rw [Slot.starts, slot_succ_ready, slot_succ_due]
  omega

theorem monotone_starts (job : Job) (runtime : Runtime) (start : Nat) :
    Monotone fun k ↦ (job.slot runtime start k).starts := by
  refine monotone_nat_of_le_succ fun k ↦ ?_
  have hready := ready_le_starts job runtime start (k + 1)
  rw [slot_succ_ready] at hready
  exact Nat.le_trans (Nat.le_add_right _ _) hready

/-- **No run starts before the earlier ones have ended.** -/
theorem apart_slot (job : Job) (runtime : Runtime) (start : Nat) {i j : Nat} (hij : i < j) :
    (job.slot runtime start i).starts + (job.run i).duration ≤
      (job.slot runtime start j).starts := by
  have hready := ready_le_starts job runtime start (i + 1)
  rw [slot_succ_ready] at hready
  exact Nat.le_trans hready (monotone_starts job runtime start hij)

/-- The loop is not ready for a run before all earlier ones have ended. -/
theorem ends_le_ready (job : Job) (runtime : Runtime) (start : Nat) {k runs : Nat} (hk : k < runs) :
    (job.slot runtime start k).starts + (job.run k).duration ≤
      (job.slot runtime start runs).ready := by
  obtain rfl | hlater := Nat.eq_or_lt_of_le (Nat.succ_le_of_lt hk)
  · exact Nat.le_refl _
  · obtain ⟨last, rfl⟩ : ∃ last, runs = last + 1 := ⟨runs - 1, by omega⟩
    rw [slot_succ_ready]
    exact Nat.le_trans (apart_slot job runtime start (Nat.lt_of_succ_lt_succ hlater))
      (Nat.le_add_right _ _)

/-- **A run starts with its tick, or as the one before ends.** -/
theorem cause_slot (hruntime : runtime.Regular) (hevery : 0 < job.every) (start k : Nat) :
    (∃ m, (job.slot runtime start k).starts = start + m * job.every) ∨
      ∃ i, k = i + 1 ∧ (job.slot runtime start k).starts =
        (job.slot runtime start i).starts + (job.run i).duration := by
  obtain hready | hdue := Nat.le_total (job.slot runtime start k).ready
    (job.slot runtime start k).due
  · obtain ⟨missed, htick⟩ := exists_due_eq hruntime hevery start k
    left
    refine ⟨k + 1 + missed, ?_⟩
    rw [Slot.starts, Nat.max_eq_right hready, htick]
  · -- The first run is not late, so there is one before.
    cases k with
    | zero =>
      have hlate : start + job.every ≤ start := hdue
      omega
    | succ i =>
      right
      refine ⟨i, rfl, ?_⟩
      rw [Slot.starts, Nat.max_eq_left hdue, slot_succ_ready]

/-! ### The starts of the first runs -/

theorem length_timetable (job : Job) (runtime : Runtime) (start runs : Nat) :
    (job.timetable runtime start runs).length = runs := by
  rw [timetable, List.length_map, List.length_range]

theorem timetable_succ (job : Job) (runtime : Runtime) (start runs : Nat) :
    job.timetable runtime start (runs + 1) =
      job.timetable runtime start runs ++ [(job.slot runtime start runs).starts] := by
  rw [timetable, List.range_succ, List.map_append]
  rfl

theorem getElem?_timetable {runs k s : Nat} :
    (job.timetable runtime start runs)[k]? = some s ↔
      k < runs ∧ (job.slot runtime start k).starts = s := by
  simp [timetable, List.getElem?_eq_some_iff]

/-- By a time there were no more runs than intervals. -/
theorem countP_timetable_le (hruntime : runtime.Regular) (hevery : 0 < job.every)
    (start runs time : Nat) :
    (job.timetable runtime start runs).countP (· ≤ time) ≤ (time - start) / job.every := by
  induction runs with
  | zero => exact Nat.zero_le _
  | succ runs ih =>
    rw [timetable_succ, List.countP_append, List.countP_singleton]
    split
    next hstarted =>
      -- The last run has had its turn, so all of them have.
      have hpace := pace_slot hruntime hevery start runs
      have hstarts : (job.slot runtime start runs).starts ≤ time := of_decide_eq_true hstarted
      have hturns : runs + 1 ≤ (time - start) / job.every :=
        (Nat.le_div_iff_mul_le hevery).2 (by omega)
      have hall : (job.timetable runtime start runs).countP (· ≤ time) ≤ runs :=
        List.countP_le_length.trans_eq (length_timetable job runtime start runs)
      omega
    next => exact ih

/-- **Who keeps to the timetable is timely.** -/
theorem timely_timetable (hruntime : runtime.Regular) (hevery : 0 < job.every)
    (start runs : Nat) :
    job.Timely start (job.timetable runtime start runs) where
  apart {i j s t} hij hs ht := by
    obtain ⟨-, rfl⟩ := getElem?_timetable.1 hs
    obtain ⟨-, rfl⟩ := getElem?_timetable.1 ht
    exact apart_slot job runtime start hij
  pace {k s} hs := by
    obtain ⟨-, rfl⟩ := getElem?_timetable.1 hs
    exact pace_slot hruntime hevery start k
  count := countP_timetable_le hruntime hevery start runs
  cause {k s} hs := by
    obtain ⟨hk, rfl⟩ := getElem?_timetable.1 hs
    obtain hmultiple | ⟨i, rfl, hends⟩ := cause_slot hruntime hevery start k
    · exact Or.inl hmultiple
    · exact Or.inr ⟨i, _, rfl, getElem?_timetable.2 ⟨Nat.lt_of_succ_lt hk, rfl⟩, hends⟩

/-- **Who is not behind the timetable goes on.** -/
theorem goesOn_timetable (hruntime : runtime.Regular) (hevery : 0 < job.every) {runs now : Nat}
    (hnow : now ≤ (job.slot runtime start runs).starts) :
    job.GoesOn start now (job.timetable runtime start runs) where
  first hlate hnone := by
    have hruns := length_timetable job runtime start runs
    rw [hnone] at hruns
    subst hruns
    have hstarts : now ≤ max start (start + job.every) := hnow
    omega
  next {k s} hs hlate := by
    obtain ⟨hk, rfl⟩ := getElem?_timetable.1 hs
    have hsucc := starts_succ_le hruntime hevery start k
    refine ⟨_, getElem?_timetable.2 ⟨?_, rfl⟩, hsucc⟩
    by_contra hlast
    obtain rfl : runs = k + 1 := by omega
    omega

end Job

end Licensing
