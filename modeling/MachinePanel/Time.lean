/-
Points in time and durations, as whole nanoseconds. Virtual time starts at
zero and moves in whole milliseconds.
-/
import MachinePanel.Text.Numeral
import MachinePanel.Text.Padded

namespace MachinePanel

/-- Nanoseconds, since the beginning or between two points in time. -/
abbrev Nanos := Nat

namespace Nanos

/-- A whole number of milliseconds. -/
def ofMillis (ms : Nat) : Nanos := ms * 1000000

/-- Seconds and nanoseconds. -/
def ofSeconds (seconds nanos : Nat) : Nanos := seconds * 1000000000 + nanos

/-- The whole milliseconds. -/
def toMillis (t : Nanos) : Nat := t / 1000000

/-- The first whole millisecond that is not earlier. -/
def ceilToMillis (t : Nanos) : Nanos := ofMillis ((t + 999999) / 1000000)

/-- An integer with a fraction of `places` digits, without its trailing zeros. -/
def fractionText (whole rest places : Nat) : String :=
  let digits := Text.padLeft '0' places (Numeral.digits rest)
  let kept := (digits.reverse.dropWhile (· == '0')).reverse
  String.ofList (Numeral.digits whole ++ if kept.isEmpty then [] else '.' :: kept)

/-- A duration in the largest of the units s, ms, µs and ns that it fills. -/
def text (t : Nanos) : String :=
  if 1000000000 ≤ t then fractionText (t / 1000000000) (t % 1000000000) 9 ++ "s"
  else if 1000000 ≤ t then fractionText (t / 1000000) (t % 1000000) 6 ++ "ms"
  else if 1000 ≤ t then fractionText (t / 1000) (t % 1000) 3 ++ "µs"
  else toString t ++ "ns"

/-- A number of at least two digits. -/
def twoDigits (n : Nat) : String :=
  String.ofList (Text.padLeft '0' 2 (Numeral.digits n))

/-- Hours, minutes and whole seconds; the hours are not bounded. -/
def hoursMinutesSeconds (t : Nanos) : String :=
  let seconds := t / 1000000000
  twoDigits (seconds / 3600) ++ ":" ++ twoDigits (seconds % 3600 / 60) ++ ":" ++
    twoDigits (seconds % 60)

end Nanos

end MachinePanel
