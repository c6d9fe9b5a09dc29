import ReviewRota.Instant
import ReviewRota.Identifier

/-!
# Supplies

What the surroundings hand out: readings of a clock and fresh identifiers. The clock moves by a
fixed step before every reading. Identifiers come from a list that was given, and from a series of
numbered ones after that.
-/

namespace ReviewRota

/-- A clock and a source of identifiers. -/
structure Supply where
  /-- What the clock showed last. -/
  last : Instant
  /-- Microseconds by which the clock moves before each reading. -/
  step : Int
  /-- The identifiers that are handed out first. -/
  given : List Identifier
  /-- How many identifiers of the series were handed out. -/
  issued : Nat
deriving DecidableEq, Inhabited

namespace Supply

def serial (n : Nat) : Identifier := .ofNat (0x40008000000000000000 + n)

def readClock (s : Supply) : Instant × Supply :=
  let now := s.last.plus s.step
  (now, { s with last := now })

def freshId (s : Supply) : Identifier × Supply :=
  match s.given with
  | i :: rest => (i, { s with given := rest })
  | [] => (serial (s.issued + 1), { s with issued := s.issued + 1 })

end Supply

end ReviewRota
