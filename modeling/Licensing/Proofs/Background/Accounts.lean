import Mathlib.Data.List.Perm.Basic
import Licensing.Background.Pool

/-!
# What becomes of background tasks

A pool is followed through any sequence of moves: tasks are handed in, names are called, time
passes, and what is due ends. Draining is left out, since it moves nothing but time. Beside the pool
a `History` keeps who was taken in, who was refused and whose end has come, and
`History.balanced` says that the pool agrees with it at every moment:

* permits and running tasks together make up the capacity, so the number of tasks in flight is that
  of the running ones, and a task is refused exactly when the pool is full;
* whoever was taken in is running or over, once and not both, and leaves one trace of its end;
* whoever was refused is counted as dropped and never runs.

The invariant is `History.Sound`. Each move is a lemma, and the runs follow by induction.

What carries it is that each task that ends gives back the one permit that it took
(`finishAll_eq`), however it ends: by itself, by a panic, or because its time is up.
-/

namespace Licensing.Background

/-- What is known of a task from its start on. -/
def Running.asStarted (task : Running) : Running := { task with wakes := none }

/-- What can happen to a pool. -/
inductive Move
  | submit (name : String) (work : Work) (timeout : Nat)
  | release (name : String)
  | advance (millis : Nat)
  | settle

/-- The name of the task that a move hands in. -/
def Move.submits : Move → List String
  | submit name _ _ => [name]
  | _ => []

namespace Pool

variable (pool : Pool)

/-- The pool after a move. -/
def move : Move → Pool
  | .submit name work timeout => (pool.submit name work timeout).2
  | .release name => pool.release name
  | .advance millis => pool.advance millis
  | .settle => pool.settle

/-- The task that is taken in with a move, as it starts. -/
def taken : Move → List Running
  | .submit name work timeout =>
    if (pool.submit name work timeout).1 then [pool.start name work timeout] else []
  | _ => []

/-- The name of the task that is refused with a move. -/
def refused : Move → List String
  | .submit name work timeout => if (pool.submit name work timeout).1 then [] else [name]
  | _ => []

/-- The tasks that end in the course of a move. -/
def finished : Move → List Running
  | .advance millis => pool.due (· < pool.now + millis)
  | .settle => pool.due (· ≤ pool.now)
  | _ => []

end Pool

/-- A pool and who has come to it: who was taken in, who was refused, and who has finished. -/
structure History where
  pool : Pool
  taken : List Running := []
  refused : List String := []
  finished : List Running := []

namespace History

/-- The history after one more move. -/
def move (h : History) (m : Move) : History where
  pool := h.pool.move m
  taken := h.taken ++ h.pool.taken m
  refused := h.refused ++ h.pool.refused m
  finished := h.finished ++ h.pool.finished m

/-- The history of a new pool. -/
def follow (capacity : Nat) (moves : List Move) : History :=
  moves.foldl move { pool := { capacity } }

/-- The pool, of a capacity, agrees with its history. -/
structure Sound (capacity : Nat) (h : History) : Prop where
  capacity_eq : h.pool.capacity = capacity
  permits : h.pool.permits + h.pool.running.length = room capacity
  once : (h.taken.map Running.asStarted).Perm ((h.pool.running ++ h.finished).map Running.asStarted)
  ended : h.pool.ended = h.finished.flatMap Running.wellEnded
  log : h.pool.log.Perm (h.finished.flatMap Running.entries ++
    h.refused.map (saturated · (room capacity)))
  dropped : ∀ name, h.pool.dropped.count name = h.refused.count name
  punctual : ∀ task ∈ h.pool.running, h.pool.now ≤ task.endsAt

end History

/-! ### Tasks that end -/

namespace Pool

variable {pool : Pool}

theorem foldl_finish (tasks : List Running) (pool : Pool) :
    tasks.foldl finish pool =
      { pool with
        permits := pool.permits + tasks.length
        ended := pool.ended ++ tasks.flatMap Running.wellEnded
        log := pool.log ++ tasks.flatMap Running.entries } := by
  induction tasks generalizing pool with
  | nil => simp
  | cons task rest ih =>
    rw [List.foldl_cons, ih]
    simp [finish, Nat.add_assoc, Nat.add_comm 1]

/-- **Each task that ends gives one permit back**, however it ends, and leaves one trace. -/
theorem finishAll_eq (pool : Pool) (isDue : Nat → Bool) : pool.finishAll isDue =
    { pool with
      permits := pool.permits + (pool.due isDue).length
      running := pool.running.filter (!isDue ·.endsAt)
      ended := pool.ended ++ (pool.due isDue).flatMap Running.wellEnded
      log := pool.log ++ (pool.due isDue).flatMap Running.entries } :=
  foldl_finish _ _

/-- Whoever runs is due or runs on. -/
theorem running_perm (pool : Pool) (isDue : Nat → Bool) :
    pool.running.Perm (pool.running.filter (!isDue ·.endsAt) ++ pool.due isDue) := by
  have hsplit := List.filter_append_perm (isDue ·.endsAt) pool.running
  have hdue : (pool.due isDue).Perm (pool.running.filter (isDue ·.endsAt)) :=
    List.mergeSort_perm _ _
  exact hsplit.symm.trans (List.perm_append_comm.trans (hdue.symm.append_left _))

/-! ### Tasks that are called -/

/-- Calling a name changes nothing of what the tasks started with. -/
theorem map_asStarted_of_wake {name : String} {now : Nat} {running woken : List Running}
    (h : wake name now running = some woken) :
    woken.map Running.asStarted = running.map Running.asStarted := by
  induction running generalizing woken with
  | nil => cases h
  | cons task rest ih =>
    rw [wake] at h
    split at h
    · cases h
      rfl
    · obtain ⟨others, hothers, rfl⟩ := Option.map_eq_some_iff.1 h
      rw [List.map_cons, List.map_cons, ih hothers]

/-- A task that is called ends now, or at the time at which it is given up. -/
theorem le_endsAt_of_wake {name : String} {now : Nat} {running woken : List Running}
    (h : wake name now running = some woken) (hrunning : ∀ task ∈ running, now ≤ task.endsAt) :
    ∀ task ∈ woken, now ≤ task.endsAt := by
  induction running generalizing woken with
  | nil => cases h
  | cons task rest ih =>
    have htask : now ≤ task.endsAt := hrunning task List.mem_cons_self
    have hrest : ∀ other ∈ rest, now ≤ other.endsAt := fun other hother ↦
      hrunning other (List.mem_cons_of_mem task hother)
    rw [wake] at h
    split at h
    · cases h
      have hdeadline : now ≤ task.deadline := Nat.le_trans htask (Nat.min_le_left _ _)
      exact List.forall_mem_cons.2 ⟨Nat.le_min.2 ⟨hdeadline, Nat.le_refl now⟩, hrest⟩
    · obtain ⟨others, hothers, rfl⟩ := Option.map_eq_some_iff.1 h
      exact List.forall_mem_cons.2 ⟨htask, ih hothers hrest⟩

/-- No task ends before it has started. -/
theorem le_endsAt_start (pool : Pool) (name : String) (work : Work) (timeout : Nat) :
    pool.now ≤ (pool.start name work timeout).endsAt := by
  have hdeadline : pool.now ≤ pool.now + timeout := Nat.le_add_right _ _
  refine Nat.le_min.2 ⟨hdeadline, ?_⟩
  unfold start
  split
  · exact Nat.le_refl _
  · exact Nat.le_add_right _ _
  · split
    · exact Nat.le_refl _
    · exact hdeadline

/-! ### Tasks that are handed in -/

theorem submit_of_no_permit {pool : Pool} (h : pool.permits = 0) (name : String) (work : Work)
    (timeout : Nat) : pool.submit name work timeout =
      (false, { pool with
        dropped := pool.dropped.add name
        log := pool.log ++ [saturated name (room pool.capacity)] }) := by
  simp only [submit, h]

theorem submit_of_permit {pool : Pool} {permits : Nat} (h : pool.permits = permits + 1)
    (name : String) (work : Work) (timeout : Nat) : pool.submit name work timeout =
      (true, { pool with
        permits
        running := pool.running ++ [pool.start name work timeout]
        called := if work.pause = .call then pool.called.erase name else pool.called }) := by
  simp only [submit, h]

/-- A task that is handed in is taken in or refused, and not both. -/
theorem count_submits (pool : Pool) (m : Move) (name : String) :
    m.submits.count name =
      ((pool.taken m).map (·.name)).count name + (pool.refused m).count name := by
  cases m with
  | submit own work timeout =>
    simp only [Move.submits, taken, refused]
    split <;> simp [start]
  | _ => rfl

end Pool

namespace History

variable {capacity : Nat} {h : History}

/-! ### Moves -/

/-- What is due ends, and time passes no further than to the next end. -/
theorem Sound.finishAll (hs : h.Sound capacity) {isDue : Nat → Bool} {now : Nat}
    (hnow : ∀ time, isDue time = false → now ≤ time) :
    ({ h with
      pool := { h.pool.finishAll isDue with now }
      finished := h.finished ++ h.pool.due isDue } : History).Sound capacity := by
  rw [Pool.finishAll_eq]
  have hperm := h.pool.running_perm isDue
  generalize h.pool.due isDue = due at hperm ⊢
  generalize hkept : h.pool.running.filter (!isDue ·.endsAt) = kept at hperm ⊢
  have hpermits : h.pool.permits + due.length + kept.length = room capacity := by
    have hlength := hperm.length_eq
    have hroom := hs.permits
    rw [List.length_append] at hlength
    omega
  -- Whoever is due goes from the running tasks to those that are over.
  have honce : (h.pool.running ++ h.finished).Perm (kept ++ (h.finished ++ due)) := by
    have hswap : (due ++ h.finished).Perm (h.finished ++ due) := List.perm_append_comm
    refine (hperm.append_right h.finished).trans ?_
    rw [List.append_assoc]
    exact hswap.append_left kept
  have hended : h.pool.ended ++ due.flatMap Running.wellEnded =
      (h.finished ++ due).flatMap Running.wellEnded := by
    rw [hs.ended, List.flatMap_append]
  have hlog : (h.pool.log ++ due.flatMap Running.entries).Perm
      ((h.finished ++ due).flatMap Running.entries ++
        h.refused.map (saturated · (room capacity))) := by
    refine (hs.log.append_right _).trans ?_
    rw [List.flatMap_append, List.append_assoc, List.append_assoc]
    exact List.perm_append_comm.append_left _
  have hpunctual : ∀ task ∈ kept, now ≤ task.endsAt := by
    intro task htask
    rw [← hkept] at htask
    obtain ⟨-, hlate⟩ := List.mem_filter.1 htask
    exact hnow _ (by simpa using hlate)
  exact ⟨hs.capacity_eq, hpermits, hs.once.trans (honce.map _), hended, hlog, hs.dropped,
    hpunctual⟩

/-- Who is turned away is counted and leaves an entry in the log. -/
theorem Sound.refuse (hs : h.Sound capacity) (name : String) :
    ({ h with
      pool := { h.pool with
        dropped := h.pool.dropped.add name
        log := h.pool.log ++ [saturated name (room h.pool.capacity)] }
      refused := h.refused ++ [name] } : History).Sound capacity := by
  have hlog : (h.pool.log ++ [saturated name (room h.pool.capacity)]).Perm
      (h.finished.flatMap Running.entries ++
        (h.refused ++ [name]).map (saturated · (room capacity))) := by
    rw [hs.capacity_eq, List.map_append, ← List.append_assoc]
    exact hs.log.append_right _
  have hdropped : ∀ other,
      (h.pool.dropped.add name).count other = (h.refused ++ [name]).count other := by
    intro other
    rw [Tally.count_add, hs.dropped other, List.count_append, List.count_singleton]
    simp only [beq_iff_eq, @eq_comm _ name other]
  exact ⟨hs.capacity_eq, hs.permits, hs.once, hs.ended, hlog, hdropped, hs.punctual⟩

/-- Who is handed in takes a permit, or is turned away where there is none. -/
theorem Sound.submit (hs : h.Sound capacity) (name : String) (work : Work) (timeout : Nat) :
    (h.move (.submit name work timeout)).Sound capacity := by
  simp only [move, Pool.move, Pool.taken, Pool.refused, Pool.finished]
  cases hpermits : h.pool.permits with
  | zero =>
    rw [Pool.submit_of_no_permit hpermits]
    simpa only [Bool.false_eq_true, if_false, List.append_nil] using hs.refuse name
  | succ permits =>
    rw [Pool.submit_of_permit hpermits]
    simp only [if_true, List.append_nil]
    generalize htask : h.pool.start name work timeout = task
    have hroom : permits + (h.pool.running ++ [task]).length = room capacity := by
      have hroom := hs.permits
      rw [List.length_append, List.length_singleton]
      omega
    -- The new task is the last of the running ones, before those that are over.
    have honce : ((h.taken ++ [task]).map Running.asStarted).Perm
        (((h.pool.running ++ [task]) ++ h.finished).map Running.asStarted) := by
      have hswap : (h.finished ++ [task]).Perm ([task] ++ h.finished) := List.perm_append_comm
      rw [List.map_append, List.append_assoc]
      refine (hs.once.append_right _).trans ?_
      rw [← List.map_append, List.append_assoc]
      exact (hswap.append_left _).map _
    have hpunctual : ∀ other ∈ h.pool.running ++ [task], h.pool.now ≤ other.endsAt := by
      intro other hother
      obtain hother | hother := List.mem_append.1 hother
      · exact hs.punctual other hother
      · rw [List.mem_singleton.1 hother, ← htask]
        exact h.pool.le_endsAt_start name work timeout
    exact ⟨hs.capacity_eq, hroom, honce, hs.ended, hs.log, hs.dropped, hpunctual⟩

/-- A call changes when a task ends, and nothing of who is there. -/
theorem Sound.release (hs : h.Sound capacity) (name : String) :
    (h.move (.release name)).Sound capacity := by
  simp only [move, Pool.move, Pool.taken, Pool.refused, Pool.finished, Pool.release,
    List.append_nil]
  split
  next woken hwoken =>
    have hstarted := Pool.map_asStarted_of_wake hwoken
    have hroom : h.pool.permits + woken.length = room capacity := by
      have hlength := congrArg List.length hstarted
      rw [List.length_map, List.length_map] at hlength
      rw [hlength, hs.permits]
    have honce : (h.taken.map Running.asStarted).Perm
        ((woken ++ h.finished).map Running.asStarted) := by
      rw [List.map_append, hstarted, ← List.map_append]
      exact hs.once
    exact ⟨hs.capacity_eq, hroom, honce, hs.ended, hs.log, hs.dropped,
      Pool.le_endsAt_of_wake hwoken hs.punctual⟩
  next =>
    exact ⟨hs.capacity_eq, hs.permits, hs.once, hs.ended, hs.log, hs.dropped, hs.punctual⟩

/-- **Every move keeps the pool in step with its history.** -/
theorem Sound.move (hs : h.Sound capacity) (m : Move) : (h.move m).Sound capacity := by
  cases m with
  | submit name work timeout => exact hs.submit name work timeout
  | release name => exact hs.release name
  | advance millis =>
    have hlate : ∀ time, decide (time < h.pool.now + millis) = false →
        h.pool.now + millis ≤ time := by
      intro time htime
      exact Nat.le_of_not_lt (of_decide_eq_false htime)
    simpa only [History.move, Pool.move, Pool.taken, Pool.refused, Pool.finished, Pool.advance,
      List.append_nil] using hs.finishAll hlate
  | settle =>
    have hlate : ∀ time, decide (time ≤ h.pool.now) = false → h.pool.now ≤ time := by
      intro time htime
      exact Nat.le_of_not_le (of_decide_eq_false htime)
    have hsettle : h.pool.settle =
        { h.pool.finishAll (· ≤ h.pool.now) with now := h.pool.now } := by
      rw [Pool.settle, Pool.finishAll_eq]
    simpa only [History.move, Pool.move, Pool.taken, Pool.refused, Pool.finished, hsettle,
      List.append_nil] using hs.finishAll hlate

/-! ### Runs -/

/-- A new pool has all its permits, and nobody has come to it. -/
theorem Sound.initial (capacity : Nat) :
    ({ pool := { capacity } } : History).Sound capacity where
  capacity_eq := rfl
  permits := rfl
  once := List.Perm.refl []
  ended := rfl
  log := List.Perm.refl []
  dropped _ := rfl
  punctual := by simp

theorem Sound.foldl_move (hs : h.Sound capacity) (moves : List Move) :
    (moves.foldl History.move h).Sound capacity := by
  induction moves generalizing h with
  | nil => exact hs
  | cons m rest ih => exact ih (hs.move m)

/-- Who was handed in was taken in or refused, and not both. -/
theorem count_foldl_move (moves : List Move) (h : History) (name : String) :
    ((moves.foldl move h).taken.map (·.name)).count name +
        (moves.foldl move h).refused.count name =
      (h.taken.map (·.name)).count name + h.refused.count name +
        (moves.flatMap Move.submits).count name := by
  induction moves generalizing h with
  | nil => rfl
  | cons m rest ih =>
    have hstep := h.pool.count_submits m name
    rw [List.foldl_cons, ih, List.flatMap_cons, List.count_append]
    simp only [move, List.map_append, List.count_append]
    omega

/-! ### What the permits tell -/

/-- **The number of tasks in flight is that of the running ones.** -/
theorem Sound.inFlight_eq (hs : h.Sound capacity) :
    h.pool.inFlight = h.pool.running.length := by
  have hroom := hs.permits
  rw [Pool.inFlight, hs.capacity_eq]
  omega

/-- Who was taken in is in flight or over. -/
theorem Sound.length_taken (hs : h.Sound capacity) :
    h.taken.length = h.pool.inFlight + h.finished.length := by
  have honce := hs.once.length_eq
  rw [List.length_map, List.length_map, List.length_append] at honce
  rw [honce, hs.inFlight_eq]

/-- A task is taken in exactly when there is room for it. -/
theorem Sound.submit_iff (hs : h.Sound capacity) (name : String) (work : Work) (timeout : Nat) :
    (h.pool.submit name work timeout).1 = true ↔ h.pool.inFlight < room capacity := by
  have hroom := hs.permits
  rw [hs.inFlight_eq]
  cases hpermits : h.pool.permits with
  | zero =>
    rw [Pool.submit_of_no_permit hpermits]
    simp only [Bool.false_eq_true, false_iff]
    omega
  | succ permits =>
    rw [Pool.submit_of_permit hpermits]
    simp only [true_iff]
    omega

/-- A task that is turned away changes nothing but the count of those, and the log. -/
theorem Sound.submit_of_refused (hs : h.Sound capacity) {name : String} {work : Work}
    {timeout : Nat} (hrefused : (h.pool.submit name work timeout).1 = false) :
    (h.pool.submit name work timeout).2 = { h.pool with
      dropped := h.pool.dropped.add name
      log := h.pool.log ++ [saturated name (room capacity)] } := by
  cases hpermits : h.pool.permits with
  | zero => rw [Pool.submit_of_no_permit hpermits, ← hs.capacity_eq]
  | succ permits =>
    rw [Pool.submit_of_permit hpermits] at hrefused
    cases hrefused

/-- A move takes one permit for each task that it takes in, and gives one back for each that ends.
-/
theorem Sound.inFlight_move (hs : h.Sound capacity) (m : Move) :
    (h.pool.move m).inFlight + (h.pool.finished m).length =
      h.pool.inFlight + (h.pool.taken m).length := by
  -- Both sides count who was taken in by the end of the move and was not over at its start.
  have hbefore := hs.length_taken
  have hafter := (hs.move m).length_taken
  simp only [History.move, List.length_append] at hafter
  omega

/-! ### The accounts -/

/-- The accounts of a pool that came through some moves. -/
structure Balanced (capacity : Nat) (moves : List Move) (h : History) : Prop where
  /-- The tasks in flight are those that were taken in and are not over, no more than there is room
  for. -/
  inFlight : h.pool.inFlight = h.pool.running.length ∧
    h.taken.length = h.pool.inFlight + h.finished.length ∧ h.pool.inFlight ≤ max 1 capacity
  /-- A task is taken in exactly when there is room. -/
  takes_iff : ∀ name work timeout, (h.pool.submit name work timeout).1 = true ↔
    h.pool.inFlight < max 1 capacity
  /-- A task that is refused starts nothing, ends nothing, and is counted once, under its name. -/
  refuses : ∀ name work timeout, (h.pool.submit name work timeout).1 = false →
    (h.pool.submit name work timeout).2.running = h.pool.running ∧
    (h.pool.submit name work timeout).2.ended = h.pool.ended ∧
    (h.pool.submit name work timeout).2.inFlight = h.pool.inFlight ∧
    ∀ other, (h.pool.submit name work timeout).2.dropped.count other =
      h.pool.dropped.count other + if other = name then 1 else 0
  /-- Whoever was taken in is running or over, once and not both. -/
  once : (h.taken.map Running.asStarted).Perm ((h.pool.running ++ h.finished).map Running.asStarted)
  /-- Whoever is over left one trace: of a good end, of a failure, or of having taken too long.
  The rest of the log is of the refused. -/
  traces : h.pool.ended = h.finished.flatMap Running.wellEnded ∧
    h.pool.log.Perm (h.finished.flatMap Running.entries ++
      h.refused.map (saturated · (max 1 capacity)))
  /-- Nobody runs for longer than they may. -/
  punctual : ∀ task ∈ h.pool.running, h.pool.now ≤ task.deadline
  /-- Whatever happens next, each task that is taken in takes one place, and each that ends leaves
  one. -/
  frees : ∀ m, (h.pool.move m).inFlight + (h.pool.finished m).length =
    h.pool.inFlight + (h.pool.taken m).length
  /-- Under each name, the taken and the dropped are those that were handed in. -/
  submitted : ∀ name, (moves.flatMap Move.submits).count name =
    (h.taken.map (·.name)).count name + h.pool.dropped.count name

/-- **The pool loses and duplicates nothing.** -/
theorem balanced (capacity : Nat) (moves : List Move) :
    (follow capacity moves).Balanced capacity moves := by
  have hs : (follow capacity moves).Sound capacity := (Sound.initial capacity).foldl_move moves
  refine ⟨⟨hs.inFlight_eq, hs.length_taken, ?_⟩, hs.submit_iff, ?_, hs.once, ⟨hs.ended, hs.log⟩, ?_,
    hs.inFlight_move, ?_⟩
  · have hroom : _ = max 1 capacity := hs.permits
    have hinFlight := hs.inFlight_eq
    omega
  · intro name work timeout hrefused
    rw [hs.submit_of_refused hrefused]
    exact ⟨rfl, rfl, rfl, Tally.count_add _ _⟩
  · intro task htask
    exact Nat.le_trans (hs.punctual task htask) (Nat.min_le_left _ _)
  · intro name
    have hcount := count_foldl_move moves { pool := { capacity } } name
    rw [hs.dropped name, ← Nat.zero_add ((moves.flatMap Move.submits).count name)]
    exact hcount.symm

end History

end Licensing.Background
