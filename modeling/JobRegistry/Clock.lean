import JobRegistry.Timestamp

/-!
# Clocks

A clock that moves only when it is told to. Moving it by a number of seconds that leads out of the
range of timestamps leaves it where it is.
-/

namespace JobRegistry

/-- A clock. -/
structure Clock where
  now : Timestamp
  deriving DecidableEq

namespace Clock

/-- The clock at another time. -/
def set (_ : Clock) (time : Timestamp) : Clock :=
  ⟨time⟩

/-- The clock moved by a number of seconds. -/
def advance (c : Clock) (seconds : Int) : Clock :=
  ⟨(c.now.plusSeconds? seconds).getD c.now⟩

end Clock

end JobRegistry
