import Mathlib.Data.List.GetD
import Mathlib.Data.List.Sort
import Licensing.Proofs.Background.Accounts

/-!
# Draining

Draining waits until as many permits are free as it asks for. That everybody has finished by then
follows where it asks for all of them, and it does as long as their number fits into 32 bits
(`History.drains_iff`). Of a larger capacity it asks for what the low 32 bits say, and comes back
with the others still running.

`Pool.drain` is draining with nobody else around. But whoever waits for permits may do so among
others, who hand tasks in and call names, and so have a say in when tasks end. `Draining` follows a
pool through that, move by move:

* permits that come free go to whoever waits, before anybody who is handed in (`Draining.served`),
  so nobody is taken in before draining is over (`Draining.Sound`);
* left alone, it is over when `Pool.drain` is, with the same tasks still running
  (`History.Sound.over?_alone`).

Draining is over at the end of the move with which it gets its last permit. Time can be let pass in
steps as small as one likes, so nothing is lost by this but the order of ends at one moment.

`drains_iff` rests on both: among others the number of permits is what counts
(`Sound.length_running_of_drains`), and that a large pool does not wait is shown by draining alone
(`not_drainsAll_of_le`).
-/

namespace Licensing.Background

/-- A pool in which somebody waits for permits: the history so far, without the permits that were
already got, how many these are, and how many are still to come. -/
structure Draining where
  history : History
  held : Nat
  awaited : Nat

namespace Draining

/-- Whatever is free goes to whoever waits, as far as it is needed. -/
def served (d : Draining) : Draining where
  history := { d.history with pool.permits := d.history.pool.permits - d.awaited }
  held := d.held + min d.awaited d.history.pool.permits
  awaited := d.awaited - d.history.pool.permits

/-- Draining begins. -/
def start (h : History) : Draining := served ⟨h, 0, h.pool.drainAsks⟩

/-- Somebody makes a move while draining waits. -/
def move (d : Draining) (m : Move) : Draining := served { d with history := d.history.move m }

/-- The history once all permits that were got are given back. -/
def returned (d : Draining) : History :=
  { d.history with pool.permits := d.history.pool.permits + d.held }

/-- The history at the end of draining, if it comes in the course of the moves. -/
def over? (d : Draining) : List Move → Option History
  | [] => if d.awaited = 0 then some d.returned else none
  | m :: rest => if d.awaited = 0 then some d.returned else (d.move m).over? rest

end Draining

/-- The history after draining with nobody else around. -/
def History.drained (h : History) : History where
  pool := h.pool.drain.2
  taken := h.taken
  refused := h.refused
  finished := h.finished ++
    if h.pool.drainAwaits = 0 then [] else h.pool.due (· ≤ h.pool.drain.2.now)

/-- Draining begins with one history and ends with another, with or without others around. -/
inductive History.Drains (h : History) : History → Prop
  | alone : h.Drains h.drained
  | among {meanwhile : List Move} {after : History} :
    (Draining.start h).over? meanwhile = some after → h.Drains after

/-! ### While draining waits -/

namespace Draining

variable {capacity : Nat} {h : History} {d : Draining}

/-- Draining that began with a history has got some of the permits that it asks for. As long as it
waits for more, no permit is free, and nobody has been taken in. -/
structure Sound (capacity : Nat) (h : History) (d : Draining) : Prop where
  returned : d.returned.Sound capacity
  asks : d.held + d.awaited = room capacity % twoTo 32
  first : d.awaited = 0 ∨ d.history.pool.permits = 0
  taken : d.history.taken = h.taken

theorem returned_served (d : Draining) : d.served.returned = d.returned := by
  have hpermits : d.history.pool.permits - d.awaited +
      (d.held + min d.awaited d.history.pool.permits) = d.history.pool.permits + d.held := by omega
  simp only [returned, served, hpermits]

theorem Sound.served (hreturned : d.returned.Sound capacity)
    (hasks : d.held + d.awaited = room capacity % twoTo 32) (htaken : d.history.taken = h.taken) :
    d.served.Sound capacity h where
  returned := d.returned_served ▸ hreturned
  asks := by
    simp only [Draining.served]
    omega
  first := by
    simp only [Draining.served]
    omega
  taken := htaken

theorem Sound.start (hs : h.Sound capacity) : (Draining.start h).Sound capacity h := by
  refine Sound.served hs ?_ rfl
  rw [Nat.zero_add, Pool.drainAsks, hs.capacity_eq]

/-- Permits that are held make no difference to what is due, and to who is called. -/
theorem returned_move (d : Draining) {m : Move} (hm : m.submits = []) :
    ({ d with history := d.history.move m } : Draining).returned = d.returned.move m := by
  cases m with
  | submit => cases hm
  | release name =>
    simp only [returned, History.move, Pool.move, Pool.release]
    split <;> rfl
  | advance millis =>
    simp only [returned, History.move, Pool.move, Pool.advance, Pool.finishAll_eq,
      Nat.add_right_comm _ d.held]
    rfl
  | settle =>
    simp only [returned, History.move, Pool.move, Pool.settle, Pool.finishAll_eq,
      Nat.add_right_comm _ d.held]
    rfl

/-- **Nobody gets in before draining is over**, and no permit is lost. -/
theorem Sound.move (hs : d.Sound capacity h) (hwaits : d.awaited ≠ 0) (m : Move) :
    (d.move m).Sound capacity h := by
  have hfull : d.history.pool.permits = 0 := hs.first.resolve_left hwaits
  cases m with
  | submit name work timeout =>
    have hrefused : d.history.move (.submit name work timeout) = { d.history with
        pool := { d.history.pool with
          dropped := d.history.pool.dropped.add name
          log := d.history.pool.log ++ [saturated name (room d.history.pool.capacity)] }
        refused := d.history.refused ++ [name] } := by
      simp only [History.move, Pool.move, Pool.taken, Pool.refused, Pool.finished,
        Pool.submit_of_no_permit hfull, Bool.false_eq_true, if_false, List.append_nil]
    rw [Draining.move, hrefused]
    exact Sound.served (hs.returned.refuse name) hs.asks hs.taken
  | release | advance | settle =>
    refine Sound.served ?_ hs.asks ?_
    · rw [d.returned_move rfl]
      exact hs.returned.move _
    · simpa only [History.move, Pool.taken, List.append_nil] using hs.taken

/-- What draining waits for is what the free permits, those that it holds among them, fall short
of. -/
theorem Sound.awaited_eq (hs : d.Sound capacity h) :
    d.awaited = room capacity % twoTo 32 - d.returned.pool.permits := by
  have hpermits : d.returned.pool.permits = d.history.pool.permits + d.held := rfl
  have hasks := hs.asks
  have hfirst := hs.first
  omega

/-- When draining is over, it had all that it asked for, and has given it back. -/
theorem Sound.over (hs : d.Sound capacity h) (hawaited : d.awaited = 0) :
    d.returned.Sound capacity ∧ d.returned.taken = h.taken ∧
      room capacity % twoTo 32 ≤ d.returned.pool.permits := by
  rw [hs.awaited_eq] at hawaited
  exact ⟨hs.returned, hs.taken, Nat.le_of_sub_eq_zero hawaited⟩

theorem Sound.of_over? (hs : d.Sound capacity h) {meanwhile : List Move} {after : History}
    (hover : d.over? meanwhile = some after) :
    after.Sound capacity ∧ after.taken = h.taken ∧
      room capacity % twoTo 32 ≤ after.pool.permits := by
  induction meanwhile generalizing d with
  | nil =>
    rw [over?] at hover
    split at hover
    next hawaited =>
      cases hover
      exact hs.over hawaited
    next => cases hover
  | cons m rest ih =>
    rw [over?] at hover
    split at hover
    next hawaited =>
      cases hover
      exact hs.over hawaited
    next hwaits => exact ih (hs.move hwaits m) hover

end Draining

/-! ### Draining alone -/

/-- In a sorted list no more elements come below that at an index than come before it, and it is
itself among those up to it. -/
theorem countP_getElem_of_sorted {times : List Nat} (hsorted : times.Pairwise (· ≤ ·)) (i : Nat)
    (hi : i < times.length) :
    times.countP (· < times[i]) ≤ i ∧ i < times.countP (· ≤ times[i]) := by
  induction times generalizing i with
  | nil => cases hi
  | cons first rest ih =>
    obtain ⟨hfirst, hrest⟩ := List.pairwise_cons.1 hsorted
    cases i with
    | zero =>
      have hnone : rest.countP (· < first) = 0 := by
        rw [List.countP_eq_zero]
        intro time htime hlt
        exact absurd (of_decide_eq_true hlt) (Nat.not_lt.2 (hfirst time htime))
      simp [hnone]
    | succ i =>
      have hi : i < rest.length := Nat.lt_of_succ_lt_succ hi
      have hle : first ≤ rest[i] := hfirst _ (List.getElem_mem hi)
      obtain ⟨hbelow, hupto⟩ := ih hrest i hi
      simp only [List.getElem_cons_succ, List.countP_cons, decide_eq_true hle, if_true]
      refine ⟨?_, Nat.succ_lt_succ hupto⟩
      split <;> omega

theorem Pool.drain_of_no_wait {pool : Pool} (h : pool.drainAwaits = 0) :
    pool.drain = (0, pool) := by
  simp only [drain, h]

/-- Letting time pass, up to a moment and through it, ends whatever is due by then. -/
theorem Pool.settle_advance (pool : Pool) (millis : Nat) :
    (pool.advance millis).settle.running = (pool.finishAll (· ≤ pool.now + millis)).running ∧
      (pool.advance millis).settle.now = pool.now + millis := by
  simp only [settle, advance, finishAll_eq, List.filter_filter, and_true]
  refine List.filter_congr fun task _ ↦ ?_
  rw [Bool.eq_iff_iff]
  simp only [Bool.and_eq_true, Bool.not_eq_true', decide_eq_false_iff_not]
  omega

namespace History

variable {capacity : Nat} {h : History}

/-- Where it has to wait, draining comes back at the first moment by which enough tasks have
ended. -/
theorem Sound.drain_of_wait (hs : h.Sound capacity) (hwaits : h.pool.drainAwaits ≠ 0) :
    ∃ time, h.pool.now ≤ time ∧
      h.pool.drain =
        (time - h.pool.now, { h.pool.finishAll (· ≤ time) with now := time }) ∧
      h.pool.running.countP (·.endsAt < time) < h.pool.drainAwaits ∧
      h.pool.drainAwaits ≤ h.pool.running.countP (·.endsAt ≤ time) := by
  obtain ⟨i, hawaits⟩ := Nat.exists_eq_succ_of_ne_zero hwaits
  generalize htimes : (h.pool.running.map Running.endsAt).mergeSort = times
  have hperm : times.Perm (h.pool.running.map Running.endsAt) := htimes ▸ List.mergeSort_perm _ _
  have hsorted : times.Pairwise (· ≤ ·) := htimes ▸ List.pairwise_mergeSort' (· ≤ ·) _
  -- Draining asks for no more permits than there are, so those it waits for are with the tasks.
  have hi : i < times.length := by
    have hroom := hs.permits
    have hasks : h.pool.drainAsks ≤ room capacity := by
      rw [Pool.drainAsks, hs.capacity_eq]
      exact Nat.mod_le _ _
    rw [hperm.length_eq, List.length_map]
    rw [Pool.drainAwaits] at hawaits
    omega
  have hcount : ∀ isDue : Nat → Bool,
      times.countP isDue = h.pool.running.countP (isDue ·.endsAt) := by
    intro isDue
    rw [hperm.countP_eq, List.countP_map]
    rfl
  obtain ⟨hbelow, hupto⟩ := countP_getElem_of_sorted hsorted i hi
  have hnow : h.pool.now ≤ times[i] := by
    obtain ⟨task, htask, hends⟩ := List.mem_map.1 (hperm.mem_iff.1 (List.getElem_mem hi))
    exact hends ▸ hs.punctual task htask
  refine ⟨times[i], hnow, ?_, ?_, ?_⟩
  · simp only [Pool.drain, hawaits, htimes, List.getD_eq_getElem times h.pool.now hi,
      Nat.max_eq_right hnow]
  · rw [hawaits, ← hcount (· < times[i])]
    exact Nat.lt_succ_of_le hbelow
  · rw [hawaits, ← hcount (· ≤ times[i])]
    exact hupto

/-- Draining with nobody else around keeps the pool in step with its history, and comes back with as
many permits free as it asks for. -/
theorem Sound.drained (hs : h.Sound capacity) :
    h.drained.Sound capacity ∧ room capacity % twoTo 32 ≤ h.drained.pool.permits := by
  have hasks : h.pool.drainAwaits = room capacity % twoTo 32 - h.pool.permits := by
    rw [Pool.drainAwaits, Pool.drainAsks, hs.capacity_eq]
  by_cases hwaits : h.pool.drainAwaits = 0
  · have hsame : h.drained = h := by
      simp only [History.drained, Pool.drain_of_no_wait hwaits, if_pos hwaits, List.append_nil]
    rw [hsame]
    exact ⟨hs, Nat.le_of_sub_eq_zero (hasks ▸ hwaits)⟩
  · obtain ⟨time, -, hdrain, -, hupto⟩ := hs.drain_of_wait hwaits
    have hlate : ∀ other, decide (other ≤ time) = false → time ≤ other := fun other hother ↦
      Nat.le_of_not_le (of_decide_eq_false hother)
    have hdue : (h.pool.due (· ≤ time)).length = h.pool.running.countP (·.endsAt ≤ time) := by
      rw [Pool.due, List.length_mergeSort, List.countP_eq_length_filter]
    simp only [History.drained, hdrain, if_neg hwaits]
    refine ⟨hs.finishAll hlate, ?_⟩
    rw [Pool.finishAll_eq]
    show _ ≤ h.pool.permits + _
    omega

/-- **Left alone, draining among others is `Pool.drain`**: it is over at the same time, and the same
tasks are still running. -/
theorem Sound.over?_alone (hs : h.Sound capacity) :
    ∃ after, (Draining.start h).over? [.advance h.pool.drain.1, .settle] = some after ∧
      after.pool.running = h.pool.drain.2.running ∧ after.pool.now = h.pool.drain.2.now := by
  have hstart : (Draining.start h).Sound capacity h := Draining.Sound.start hs
  have hreturned : (Draining.start h).returned = h := Draining.returned_served _
  have hawaited : (Draining.start h).awaited = h.pool.drainAwaits := by
    rw [hstart.awaited_eq, hreturned, Pool.drainAwaits, Pool.drainAsks, hs.capacity_eq]
  by_cases hwaits : h.pool.drainAwaits = 0
  · refine ⟨h, ?_, ?_⟩
    · rw [Draining.over?, if_pos (hawaited.trans hwaits), hreturned]
    · rw [Pool.drain_of_no_wait hwaits]
      exact ⟨rfl, rfl⟩
  · have hawaits : h.pool.drainAwaits = room capacity % twoTo 32 - h.pool.permits := by
      rw [← hawaited, hstart.awaited_eq, hreturned]
    obtain ⟨time, hnow, hdrain, hbelow, -⟩ := hs.drain_of_wait hwaits
    have htime : h.pool.now + (time - h.pool.now) = time := Nat.add_sub_cancel' hnow
    have hlast := h.pool.settle_advance (time - h.pool.now)
    rw [htime] at hlast
    rw [hdrain]
    generalize hpassed : (Draining.start h).move (.advance (time - h.pool.now)) = passed
    have hpassed_sound : passed.Sound capacity h := hpassed ▸ hstart.move (hawaited ▸ hwaits) _
    have hpassed_returned : passed.returned = h.move (.advance (time - h.pool.now)) := by
      rw [← hpassed, Draining.move, Draining.returned_served, Draining.returned_move _ rfl,
        hreturned]
    -- Before the last moment fewer tasks end than draining waits for.
    have hpassed_waits : passed.awaited ≠ 0 := by
      have hpermits : passed.returned.pool.permits =
          h.pool.permits + h.pool.running.countP (·.endsAt < time) := by
        simp only [hpassed_returned, History.move, Pool.move, Pool.advance, Pool.finishAll_eq,
          htime, Pool.due, List.length_mergeSort, List.countP_eq_length_filter]
      rw [hpassed_sound.awaited_eq, hpermits]
      omega
    have hover_sound : (passed.move .settle).Sound capacity h := hpassed_sound.move hpassed_waits _
    have hover_returned : (passed.move .settle).returned =
        (h.move (.advance (time - h.pool.now))).move .settle := by
      rw [Draining.move, Draining.returned_served, Draining.returned_move _ rfl, hpassed_returned]
    -- At the end the same tasks run as with nobody else around, so as many permits are free.
    have hover : (passed.move .settle).awaited = 0 := by
      have hrunning : (passed.move .settle).returned.pool.running = h.drained.pool.running := by
        rw [hover_returned, History.drained, hdrain]
        exact hlast.1
      have hpermits := hover_sound.returned.permits
      have hpermits_drained := hs.drained.1.permits
      have henough := hs.drained.2
      rw [hrunning] at hpermits
      rw [hover_sound.awaited_eq]
      omega
    refine ⟨(passed.move .settle).returned, ?_, ?_⟩
    · rw [Draining.over?, if_neg (hawaited ▸ hwaits), hpassed, Draining.over?,
        if_neg hpassed_waits, Draining.over?, if_pos hover]
    · rw [hover_returned]
      exact hlast

/-- **Whoever drains had all the permits that it asks for**, and nobody was taken in meanwhile. -/
theorem Sound.of_drains (hs : h.Sound capacity) {after : History} (hdrains : h.Drains after) :
    after.Sound capacity ∧ after.taken = h.taken ∧
      room capacity % twoTo 32 ≤ after.pool.permits := by
  cases hdrains with
  | alone => exact ⟨hs.drained.1, rfl, hs.drained.2⟩
  | among hover => exact (Draining.Sound.start hs).of_over? hover

/-! ### Who has finished -/

/-- Whoever was taken in by one time has finished by another, at which nobody runs. -/
structure AllOver (h after : History) : Prop where
  running : after.pool.running = []
  finished : (h.taken.map Running.asStarted).Perm (after.finished.map Running.asStarted)

/-- Draining a pool of a capacity waits for everybody, whatever came before and whatever happens
meanwhile. -/
def DrainsAll (capacity : Nat) : Prop :=
  ∀ moves after, (follow capacity moves).Drains after → (follow capacity moves).AllOver after

/-- Draining frees as many places as the low 32 bits of their number say. -/
theorem Sound.length_running_of_drains (hs : h.Sound capacity) {after : History}
    (hdrains : h.Drains after) :
    after.pool.running.length ≤ room capacity - room capacity % twoTo 32 := by
  obtain ⟨hafter, -, hasks⟩ := hs.of_drains hdrains
  have hroom := hafter.permits
  omega

theorem drainsAll_of_lt (hroom : room capacity < twoTo 32) : DrainsAll capacity := by
  intro moves after hdrains
  have hs : (follow capacity moves).Sound capacity := (Sound.initial capacity).foldl_move moves
  obtain ⟨hafter, htaken, -⟩ := hs.of_drains hdrains
  have hrunning : after.pool.running = [] := by
    have hlength := hs.length_running_of_drains hdrains
    rw [Nat.mod_eq_of_lt hroom, Nat.sub_self] at hlength
    exact List.length_eq_zero_iff.1 (Nat.le_zero.1 hlength)
  refine ⟨hrunning, ?_⟩
  rw [← htaken]
  simpa only [hrunning, List.nil_append] using hafter.once

/-- A large pool does not wait for a single task: it has more permits left than draining asks for.
-/
theorem not_drainsAll_of_le (hroom : twoTo 32 ≤ room capacity) : ¬ DrainsAll capacity := by
  intro hall
  obtain ⟨others, hothers⟩ : ∃ others, room capacity = others + 1 :=
    Nat.exists_eq_add_one.2 (Nat.le_max_left 1 capacity)
  have hpool : (follow capacity [.submit "a" .wait 1000]).pool =
      { capacity, permits := others,
        running := [{ name := "a", timeout := 1000, deadline := 1000, wakes := none }] } := by
    show (Pool.submit { capacity } "a" .wait 1000).2 = _
    rw [Pool.submit_of_permit hothers]
    rfl
  have hwaits : (follow capacity [.submit "a" .wait 1000]).pool.drainAwaits = 0 := by
    have hasks : room capacity % twoTo 32 < twoTo 32 := Nat.mod_lt _ (Nat.two_pow_pos 32)
    rw [hpool, Pool.drainAwaits, Pool.drainAsks]
    show room capacity % twoTo 32 - others = 0
    omega
  have hover : (follow capacity [.submit "a" .wait 1000]).pool.drain.2.running = [] :=
    (hall [.submit "a" .wait 1000] _ .alone).running
  rw [Pool.drain_of_no_wait hwaits, hpool] at hover
  cases hover

/-- **What draining waits for.** In a pool of any capacity, after any moves, and whatever happens
until it is over: nobody is taken in meanwhile, and it comes back with at least as many places free
as the low 32 bits of their number say. So everybody who was taken in before has finished by then,
whatever the history, exactly if the number of places fits into 32 bits. -/
theorem drains_iff (capacity : Nat) :
    (∀ moves after, (follow capacity moves).Drains after →
      after.taken = (follow capacity moves).taken ∧
      after.pool.running.length ≤ max 1 capacity - max 1 capacity % twoTo 32) ∧
    (DrainsAll capacity ↔ max 1 capacity < twoTo 32) := by
  refine ⟨fun moves after hdrains ↦ ?_, fun hall ↦ ?_, drainsAll_of_lt⟩
  · have hs : (follow capacity moves).Sound capacity := (Sound.initial capacity).foldl_move moves
    exact ⟨(hs.of_drains hdrains).2.1, hs.length_running_of_drains hdrains⟩
  · exact Nat.lt_of_not_le fun hroom ↦ not_drainsAll_of_le hroom hall

/-- **Draining does not always wait for everybody**: not in a pool of 4294967296 places. -/
theorem not_forall_drainsAll : ¬ ∀ capacity, DrainsAll capacity := by
  intro hall
  have hroom : twoTo 32 ≤ room 4294967296 := by decide
  exact not_drainsAll_of_le hroom (hall 4294967296)

end History

end Licensing.Background
