import ReviewRota.Instant
import ReviewRota.Json.Number

/-!
# Reading instants

An instant is written as a date and a time with a separator between them, or as a date alone, which
stands for its midnight, or as the number of seconds since the start of 1970 in universal time.
A number of seconds beyond twenty thousand million is one of milliseconds.
-/

namespace ReviewRota.Instant

/-- A reader consumes characters from the front of a list. -/
abbrev Scan (α : Type) := List Char → Option (α × List Char)

/-- A number of exactly `width` digits. -/
def scanDigits (width : Nat) : Scan Nat := fun cs =>
  let ds := cs.take width
  if ds.length = width && ds.all Text.isDecimal then some (Text.decimalNumber ds, cs.drop width) else none

def scanOneOf (options : List Char) : Scan Unit
  | [] => none
  | c :: cs => if options.contains c then some ((), cs) else none

/-- A day as year, month and day with hyphens. -/
def scanDay : Scan Day := fun cs => do
  let (year, cs) ← scanDigits 4 cs
  let (_, cs) ← scanOneOf ['-'] cs
  let (month, cs) ← scanDigits 2 cs
  let (_, cs) ← scanOneOf ['-'] cs
  let (day, cs) ← scanDigits 2 cs
  let d ← Day.ofParts? year month day
  some (d, cs)

/-- The fraction of a second in microseconds. Digits beyond the sixth are dropped. -/
def scanFraction : Scan Nat := fun cs =>
  match cs with
  | '.' :: rest | ',' :: rest =>
    let ds := rest.takeWhile Text.isDecimal
    if ds.isEmpty then none
    else some (Text.decimalNumber ((ds ++ List.replicate 6 '0').take 6), rest.dropWhile Text.isDecimal)
  | _ => some (0, cs)

/-- A time of day in microseconds; the seconds may be left out. -/
def scanTime : Scan Nat := fun cs => do
  let (hour, cs) ← scanDigits 2 cs
  let (_, cs) ← scanOneOf [':'] cs
  let (minute, cs) ← scanDigits 2 cs
  if 24 ≤ hour || 60 ≤ minute then none
  else
    let minutes := hour * 60 + minute
    match cs with
    | ':' :: cs =>
      let (second, cs) ← scanDigits 2 cs
      if 60 ≤ second then none
      else
        let (micros, cs) ← scanFraction cs
        some ((minutes * 60 + second) * 1000000 + micros, cs)
    | _ => some (minutes * 60000000, cs)

/-- The end of the text, as the offset of the clock: none, a `Z`, or hours and minutes. -/
def scanOffset : List Char → Option (Option Int)
  | [] => some none
  | ['Z'] | ['z'] => some (some 0)
  | sign :: cs => do
    let negative ← if sign = '+' then some false else if sign = '-' || sign = '\u2212' then some true else none
    let (hours, cs) ← scanDigits 2 cs
    let cs := match cs with
      | ':' :: rest => rest
      | _ => cs
    let (minutes, cs) ← scanDigits 2 cs
    if cs.isEmpty && hours < 24 && minutes < 60 then
      let seconds : Int := ((hours * 60 + minutes) * 60 : Nat)
      some (some (if negative then -seconds else seconds))
    else none

def midnight (d : Day) : Int := d.number * perDay * perSecond

def ofDateTime? (cs : List Char) : Option Instant := do
  let (day, cs) ← scanDay cs
  let (_, cs) ← scanOneOf ['T', 't', ' ', '_'] cs
  let (time, cs) ← scanTime cs
  let offset ← scanOffset cs
  some ⟨midnight day + (time : Int), offset⟩

def ofDate? (cs : List Char) : Option Instant :=
  match scanDay cs with
  | some (day, []) => some ⟨midnight day, none⟩
  | _ => none

/-- Seconds from which on a number counts milliseconds. -/
def millisecondsFrom : Nat := 20000000000

/-- The first second and the last second that a number can stand for. -/
def epochRange : Int × Int := (-11676096000, 253402300799)

/-- A number of seconds, with some more microseconds. -/
def ofEpoch? (seconds : Int) (micros : Nat) : Option Instant :=
  let total : Int :=
    if seconds.natAbs ≤ millisecondsFrom then seconds * perSecond + micros
    else seconds * 1000 + micros
  let whole := total.fdiv perSecond
  if epochRange.1 ≤ whole && whole ≤ epochRange.2 then some ⟨total, some 0⟩ else none

/-- The whole seconds of a 64-bit value, rounded down, and the microseconds of its fraction. -/
def splitSeconds (negative : Bool) (d : Dyadic) : Int × Nat :=
  if 0 ≤ d.exponent then
    let n : Int := d.mantissa <<< d.exponent.toNat
    (if negative then -n else n, 0)
  else
    let unit : Nat := 1 <<< (-d.exponent).toNat
    let n : Int := if negative then -(d.mantissa : Int) else d.mantissa
    (n.fdiv unit, Dyadic.roundQuotient (d.mantissa % unit * 1000000) unit)

/-- A number as a number of seconds. -/
def ofNumber? : Number → Option Instant
  | .int n => ofEpoch? n 0
  | .decimal m e =>
    (Number.nearest? m e).bind fun d =>
      let (seconds, micros) := splitSeconds (m < 0) d
      ofEpoch? seconds micros
  | _ => none

/-- A text of digits, with a sign and a fraction where there is one, as a number of seconds. -/
def ofNumeral? (cs : List Char) : Option Instant :=
  let (negative, cs) := match cs with
    | '-' :: rest => (true, rest)
    | '+' :: rest => (false, rest)
    | _ => (false, cs)
  let whole := cs.takeWhile Text.isDecimal
  let sign (n : Nat) : Int := if negative then -(n : Int) else n
  if whole.isEmpty then none
  else match cs.dropWhile Text.isDecimal with
    | [] => ofEpoch? (sign (Text.decimalNumber whole)) 0
    | '.' :: ds =>
      if ds.all Text.isDecimal then
        ofNumber? (.decimal (sign (Text.decimalNumber (whole ++ ds))) (-(ds.length : Int)))
      else none
    | _ => none

/-- The instant that a text writes down. -/
def ofText? (s : String) : Option Instant :=
  let cs := s.toList
  ofDateTime? cs <|> ofNumeral? cs <|> ofDate? cs

end ReviewRota.Instant
