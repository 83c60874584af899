import Licensing.Program

/-!
# What the log tells of background tasks

A task that found no room, one that failed, and one that took too long. A task that ends well
leaves no entry.
-/

namespace Licensing.Background

/-- A task found no room among as many as the capacity. -/
def saturated (task : String) (capacity : Nat) : LogEntry :=
  ⟨.warn, "Background task pool saturated, dropping task",
    [("task", task), ("capacity", toString capacity)]⟩

/-- A task failed. -/
def failed (task : String) (failure : Failure) : LogEntry :=
  ⟨.error, "Background task failed", [("task", task), ("error", failure.message)]⟩

/-- A task took longer than it may. -/
def timedOut (task : String) (millis : Nat) : LogEntry :=
  ⟨.error, "Background task timed out", [("task", task), ("timeout_ms", toString millis)]⟩

/-- How many tasks there is room for: at least one. -/
def room (capacity : Nat) : Nat := max 1 capacity

end Licensing.Background
