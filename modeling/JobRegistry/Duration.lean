import JobRegistry.Number.Power
import JobRegistry.Text.Digits

/-!
# Spans of time

How a message shows a span of nanoseconds: in the largest of the units second, millisecond,
microsecond and nanosecond that does not exceed it, with the rest as decimals without trailing
zeros.
-/

namespace JobRegistry.Duration

open Number Text

/-- Decimals of a rest below `10 ^ width`, without trailing zeros, after a point. -/
def decimals (width rest : Nat) : List Char :=
  if rest = 0 then []
  else '.' :: ((Digits.padded width rest).reverse.dropWhile (· == '0')).reverse

/-- A span in a unit of `10 ^ width` nanoseconds. -/
def inUnit (width : Nat) (unit : String) (nanos : Nat) : String :=
  String.ofList (Digits.ofNat (nanos / tenPow width) ++ decimals width (nanos % tenPow width)) ++
    unit

/-- The text of a span. -/
def shown (nanos : Nat) : String :=
  if 1000000000 ≤ nanos then inUnit 9 "s" nanos
  else if 1000000 ≤ nanos then inUnit 6 "ms" nanos
  else if 1000 ≤ nanos then inUnit 3 "µs" nanos
  else inUnit 0 "ns" nanos

/-- The nanoseconds of a number of milliseconds. -/
def ofMillis (ms : Nat) : Nat :=
  ms * 1000000

end JobRegistry.Duration
