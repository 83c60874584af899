/-!
# Points of time

A point of time to the nanosecond, with room for leap seconds. Every second of the count from 1
January 1970 UTC is given two thousand million ticks: the first half are its nanoseconds, the
second half those of a leap second inserted after it. So a leap second lies between its two
neighbours and the order of time is the order of ticks.
-/

namespace Licensing

/-- A point of time. -/
structure Instant where
  ticks : Int
  deriving DecidableEq, Inhabited

namespace Instant

/-- The ticks of one second of the count. -/
def ticksPerSecond : Int := 2000000000

/-- The nanoseconds of one second. -/
def nanosPerSecond : Int := 1000000000

/-- The point `frac` ticks into a second of the count. -/
def ofSecond (second frac : Int) : Instant := ⟨second * ticksPerSecond + frac⟩

/-- The whole seconds since 1970. -/
def second (t : Instant) : Int := t.ticks / ticksPerSecond

/-- The ticks into the second: at least `nanosPerSecond` within a leap second. -/
def frac (t : Instant) : Int := t.ticks % ticksPerSecond

instance : LE Instant := ⟨fun a b ↦ a.ticks ≤ b.ticks⟩

instance : LT Instant := ⟨fun a b ↦ a.ticks < b.ticks⟩

instance (a b : Instant) : Decidable (a ≤ b) := inferInstanceAs (Decidable (a.ticks ≤ b.ticks))

instance (a b : Instant) : Decidable (a < b) := inferInstanceAs (Decidable (a.ticks < b.ticks))

/-- Orders points of time. -/
def compare (a b : Instant) : Ordering := Ord.compare a.ticks b.ticks

/-- The point that many nanoseconds later, or earlier if negative. A sum that stays inside a leap
second is counted in its ticks; one that leaves it counts on as if the leap second had been an
ordinary one. -/
def addNanos (t : Instant) (nanos : Int) : Instant :=
  let seconds := nanos.tdiv nanosPerSecond
  let rest := nanos.tmod nanosPerSecond
  if nanosPerSecond ≤ t.frac then
    if 0 < seconds ∨ (0 < rest ∧ ticksPerSecond ≤ t.frac + rest) then
      plain t.second (t.frac - nanosPerSecond) seconds rest
    else if seconds < 0 then plain (t.second + 1) (t.frac - nanosPerSecond) seconds rest
    else ⟨t.ticks + rest⟩
  else plain t.second t.frac seconds rest
where
  /-- The sum away from leap seconds. -/
  plain (second frac seconds rest : Int) : Instant :=
    let total := (second + seconds) * nanosPerSecond + frac + rest
    .ofSecond (total / nanosPerSecond) (total % nanosPerSecond)

/-- The point that many milliseconds later. -/
def addMillis (t : Instant) (millis : Int) : Instant := t.addNanos (millis * 1000000)

/-- The point that many seconds later. -/
def addSeconds (t : Instant) (seconds : Int) : Instant := t.addNanos (seconds * nanosPerSecond)

theorem le_iff {a b : Instant} : a ≤ b ↔ a.ticks ≤ b.ticks := Iff.rfl

theorem lt_iff {a b : Instant} : a < b ↔ a.ticks < b.ticks := Iff.rfl

theorem not_lt {a b : Instant} : ¬ a < b ↔ b ≤ a := Int.not_lt

theorem le_trans {a b c : Instant} : a ≤ b → b ≤ c → a ≤ c := Int.le_trans

end Instant

end Licensing
