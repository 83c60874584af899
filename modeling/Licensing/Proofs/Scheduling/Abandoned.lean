import Licensing.Proofs.Scheduling.Runs

/-!
# A scheduler that is let go of

A loop hears that the scheduler was let go of just as it hears that it shall stop. So it does not go
on by itself: if its tick is not due when it listens next, it leaves, and its job is never run again
(`JobLoop.Spent`). It may go on only while a tick is due each time it listens.

The main result is `RunningScheduler.starts_abandon`: where no tick is due, nothing starts any more.
It rests on `JobLoop.Spent` being kept by whatever can happen (`RunningScheduler.Spent.move`), and
on no move starting a run of a loop that is spent. By `Scheduler.not_forall_starts_abandon`, the
loops do not go on as if the scheduler had been kept.
-/

namespace Licensing

namespace JobLoop

variable {loop : JobLoop} {now last : Nat}

/-- The loop has stopped, or is about to: nobody holds the scheduler any more, and no tick is due
when the loop listens next. -/
def Spent (loop : JobLoop) (now : Nat) : Prop :=
  loop.phase = .stopped ∨ loop.signal = .gone ∧ loop.idleAt now < loop.due

/-- A loop that waits and has no tick due leaves at once when nobody is left. -/
theorem run_of_gone (hphase : loop.phase = .waiting) (hsignal : loop.signal = .gone)
    (hdue : now < loop.due) (steps last : Nat) : loop.run (steps + 1) now last = loop.leave := by
  refine run_of_leaves ?_ steps
  rw [next, hphase]
  simp only [select, hsignal, if_neg (Nat.not_le_of_lt hdue)]
  rfl

/-- **Letting time pass**, a loop that is about to stop starts no run, and is still about to stop or
has stopped. -/
theorem Spent.advance (h : loop.Spent now) (last : Nat) :
    (loop.advance now last).2.starts = [] ∧
      ∀ later, later ≤ last + 1 → (loop.advance now last).1.Spent later := by
  obtain hstopped | ⟨hsignal, hdue⟩ := h
  · rw [advance_of_stopped hstopped]
    exact ⟨rfl, fun _ _ ↦ .inl hstopped⟩
  cases hphase : loop.phase with
  | stopped =>
    rw [advance_of_stopped hphase]
    exact ⟨rfl, fun _ _ ↦ .inl hphase⟩
  | waiting =>
    rw [idleAt, hphase] at hdue
    rw [JobLoop.advance, steps, run_of_gone hphase hsignal hdue]
    exact ⟨rfl, fun _ _ ↦ .inl rfl⟩
  | running ending =>
    rw [idleAt, hphase] at hdue
    have hend : ending < loop.due := Nat.lt_of_le_of_lt (Nat.le_max_right now ending) hdue
    rw [JobLoop.advance, steps, run]
    by_cases hlast : ending ≤ last
    · have hnext : loop.next now last = some (ending, loop.finish) := by
        rw [next, hphase]
        exact if_pos hlast
      have hleave : loop.finish.1.run (2 * (last + 1 - loop.due) + 1) ending last =
          loop.finish.1.leave :=
        run_of_gone (show loop.finish.1.phase = .waiting from rfl) hsignal hend _ last
      simp only [hnext, hleave]
      refine ⟨?_, fun _ _ ↦ .inl rfl⟩
      show loop.finish.2.starts ++ [] = []
      rw [List.append_nil]
      exact JobEvents.starts_run _ _
    · have hnext : loop.next now last = none := by
        rw [next, hphase]
        exact if_neg hlast
      simp only [hnext]
      refine ⟨trivial, fun later hlater ↦ .inr ⟨hsignal, ?_⟩⟩
      rw [idleAt, hphase]
      show max later ending < loop.due
      omega

/-- Whatever a loop is at, when it is told to stop it starts no run, and has stopped then. -/
theorem still_stop (loop : JobLoop) (now : Nat) :
    (loop.stop now).1.1.phase = .stopped ∧ (loop.stop now).1.2.starts = [] := by
  cases hphase : loop.phase with
  | waiting =>
    rw [stop_of_waiting hphase]
    exact ⟨rfl, rfl⟩
  | running ending =>
    rw [stop_of_running hphase]
    exact ⟨rfl, JobEvents.starts_run _ _⟩
  | stopped =>
    rw [stop_of_stopped hphase]
    exact ⟨hphase, rfl⟩

end JobLoop

namespace RunningScheduler

variable {running : RunningScheduler}

/-- All loops have stopped or are about to. -/
def Spent (running : RunningScheduler) : Prop := ∀ loop ∈ running.loops, loop.Spent running.now

/-- **Whatever the move**, loops that are about to stop start no run. -/
theorem Spent.move (h : running.Spent) (m : Move) :
    (running.move m).1.Spent ∧ (running.move m).2.starts = [] := by
  have hadvance : ∀ millis later, later ≤ running.now + millis + 1 →
      ({ (running.advance millis).1 with now := later } : RunningScheduler).Spent ∧
        (running.advance millis).2.starts = [] := by
    intro millis later hlater
    constructor
    · intro advanced hadvanced
      obtain ⟨loop, hloop, rfl⟩ := mem_gather hadvanced
      exact ((h loop hloop).advance _).2 later hlater
    · rw [show (running.advance millis).2.starts = _ from starts_gather _, List.flatMap_map]
      exact List.flatMap_eq_nil_iff.2 fun loop hloop ↦ ((h loop hloop).advance _).1
  cases m with
  | advance millis => exact hadvance millis _ (Nat.le_succ _)
  | elapse millis =>
    cases millis with
    | zero => exact ⟨h, rfl⟩
    | succ millis => exact hadvance millis _ (Nat.le_refl _)
  | shutdown =>
    show running.shutdown.1.Spent ∧ running.shutdown.2.starts = []
    rw [shutdown_eq]
    obtain ⟨hstopped, hsilent⟩ := gather_of_stopped
      fun loop (_ : loop ∈ running.loops) ↦ loop.still_stop running.now
    exact ⟨fun loop hloop ↦ .inl (hstopped loop hloop), hsilent⟩

theorem Spent.follow (h : running.Spent) (moves : List Move) :
    (running.follow moves).2.starts = [] := by
  induction moves generalizing running with
  | nil => rfl
  | cons m rest ih =>
    obtain ⟨hspent, hsilent⟩ := h.move m
    show (running.move m).2.starts ++ ((running.move m).1.follow rest).2.starts = []
    rw [hsilent, ih hspent, List.append_nil]

/-- **Who lets go of a scheduler stops it**: if no loop has a tick due when it listens next, then no
run starts any more, whatever happens afterwards. -/
theorem starts_abandon (h : ∀ loop ∈ running.loops, loop.idleAt running.now < loop.due)
    (moves : List Move) : (running.abandon.follow moves).2.starts = [] := by
  refine Spent.follow (fun abandoned habandoned ↦ ?_) moves
  obtain ⟨loop, hloop, rfl⟩ := List.mem_map.1 habandoned
  exact .inr ⟨rfl, h loop hloop⟩

end RunningScheduler

/-- **The loops do not go on** as if the scheduler had been kept: let go of at the start, a scheduler
runs none of its jobs. -/
theorem Scheduler.not_forall_starts_abandon :
    ¬ ∀ (scheduler : Scheduler) (start : Nat) (moves after : List RunningScheduler.Move),
      scheduler.Registered →
        (((scheduler.start start).follow moves).1.abandon.follow after).2.starts =
          (((scheduler.start start).follow moves).1.follow after).2.starts := by
  intro hall
  have hlate : ({} : Scheduler).register lateJob = .ok ⟨[lateJob]⟩ := by rfl
  have hsame := hall ⟨[lateJob]⟩ 0 [] [.advance 20] (.register .empty hlate)
  exact absurd hsame (by decide)

end Licensing
