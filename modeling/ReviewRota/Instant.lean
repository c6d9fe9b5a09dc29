import ReviewRota.Text.Hex

/-!
# Instants

A reading of a clock: a date and a time of day to the microsecond in the proleptic Gregorian
calendar, with the offset from universal time where it is known. The text of an instant shows
microseconds only when there are any, always with six digits.
-/

namespace ReviewRota

structure Day where
  year : Int
  month : Nat
  day : Nat
deriving DecidableEq

namespace Day

def daysOfCycle : Int := 146097

/-- The number of days since 1 January 1970. Years are counted from March, so that the leap day is
the last day of a year. -/
def number (d : Day) : Int :=
  let year := if d.month ≤ 2 then d.year - 1 else d.year
  let cycle := year.fdiv 400
  let yearOfCycle := year - cycle * 400
  let month : Int := if d.month ≤ 2 then d.month + 9 else (d.month : Int) - 3
  let dayOfYear := (153 * month + 2) / 5 + d.day - 1
  cycle * daysOfCycle + yearOfCycle * 365 + yearOfCycle / 4 - yearOfCycle / 100 + dayOfYear - 719468

def ofNumber (n : Int) : Day :=
  let n := n + 719468
  let cycle := n.fdiv daysOfCycle
  let dayOfCycle := n - cycle * daysOfCycle
  let yearOfCycle := (dayOfCycle - dayOfCycle / 1460 + dayOfCycle / 36524 - dayOfCycle / 146096) / 365
  let dayOfYear := dayOfCycle - (365 * yearOfCycle + yearOfCycle / 4 - yearOfCycle / 100)
  let month := (5 * dayOfYear + 2) / 153
  let day := dayOfYear - (153 * month + 2) / 5 + 1
  let month := if month < 10 then month + 3 else month - 9
  let year := yearOfCycle + cycle * 400 + if month ≤ 2 then 1 else 0
  ⟨year, month.toNat, day.toNat⟩

def isLeap (year : Int) : Bool := year % 4 = 0 && (year % 100 != 0 || year % 400 = 0)

def daysOfMonth (year : Int) (month : Nat) : Nat :=
  if month = 2 then (if isLeap year then 29 else 28)
  else if month = 4 || month = 6 || month = 9 || month = 11 then 30 else 31

def ofParts? (year month day : Nat) : Option Day :=
  if 1 ≤ year && 1 ≤ month && month ≤ 12 && 1 ≤ day && day ≤ daysOfMonth year month then
    some ⟨year, month, day⟩
  else none

example : (Day.mk 2024 2 29).number = 19782 ∧ ofNumber 19782 = ⟨2024, 2, 29⟩ := by decide

example : (Day.mk 1 1 1).number = -719162 ∧ ofNumber (-719162) = ⟨1, 1, 1⟩ := by decide

end Day

structure Instant where
  /-- Microseconds from the start of 1970 to the date and time that the clock shows. -/
  shown : Int
  /-- Seconds by which the clock is ahead of universal time, if that is known. -/
  offset : Option Int
deriving DecidableEq, Inhabited

namespace Instant

def perSecond : Int := 1000000

def perDay : Int := 86400

/-- Microseconds since the start of 1970 in universal time; a clock of unknown offset is read as it
stands. -/
def universal (i : Instant) : Int := i.shown - (i.offset.getD 0) * perSecond

/-- Two instants have an order when both offsets are known or neither is. -/
def comparable (a b : Instant) : Bool := a.offset.isSome = b.offset.isSome

/-- The instant some microseconds later on the same clock. -/
def plus (i : Instant) (microseconds : Int) : Instant := { i with shown := i.shown + microseconds }

/-- The text of an offset: sign, hours and minutes, and seconds when there are any. -/
def offsetText (seconds : Int) : String :=
  let n := seconds.natAbs
  let sign := if seconds < 0 then "-" else "+"
  let rest := if n % 60 = 0 then "" else ":" ++ Text.padded 2 (n % 60)
  sign ++ Text.padded 2 (n / 3600) ++ ":" ++ Text.padded 2 (n / 60 % 60) ++ rest

def text (i : Instant) : String :=
  let seconds := i.shown.fdiv perSecond
  let micros := (i.shown - seconds * perSecond).toNat
  let dayNumber := seconds.fdiv perDay
  let second := (seconds - dayNumber * perDay).toNat
  let day := Day.ofNumber dayNumber
  let fraction := if micros = 0 then "" else "." ++ Text.padded 6 micros
  Text.padded 4 day.year.toNat ++ "-" ++ Text.padded 2 day.month ++ "-" ++ Text.padded 2 day.day ++ "T" ++
    Text.padded 2 (second / 3600) ++ ":" ++ Text.padded 2 (second / 60 % 60) ++ ":" ++
    Text.padded 2 (second % 60) ++ fraction ++ (i.offset.map offsetText).getD ""

example : (Instant.mk 1500000 (some 19800)).text = "1970-01-01T00:00:01.500000+05:30" := by decide +kernel

end Instant

end ReviewRota
