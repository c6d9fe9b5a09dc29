/-!
# Numbers of a document

A number written with digits alone is an integer of any size. A number with a fraction or an
exponent stands for the nearest binary floating-point value of 64 bits, ties going to the even
neighbour; it can be too large for any of them. The readers of fields ask three things about such
a number: whether it is finite, whether it is whole, and which integer it then is.
-/

namespace ReviewRota

/-- A number as a document writes it. -/
inductive Number where
  /-- Digits alone. -/
  | int (n : Int)
  /-- The decimal `mantissa * 10 ^ exponent`, written with a fraction or an exponent. -/
  | decimal (mantissa exponent : Int)
  /-- The word for an infinite value, with its sign. -/
  | infinite (negative : Bool)
  /-- The word for a value that is no number. -/
  | undefined
deriving DecidableEq, Inhabited

/-- A finite binary value `mantissa * 2 ^ exponent`. -/
structure Dyadic where
  mantissa : Nat
  exponent : Int
deriving DecidableEq

namespace Dyadic

/-- The least exponent of the 64-bit format. -/
def leastExponent : Int := -1074

/-- A quotient rounded to the nearest integer, a half going to the even neighbour. -/
def roundQuotient (num den : Nat) : Nat :=
  let q := num / den
  let r := 2 * (num % den)
  if r < den then q else if den < r then q + 1 else if q % 2 = 0 then q else q + 1

/-- The quotient `num / den` divided by `2 ^ e` and rounded. -/
def scaled (num den : Nat) (e : Int) : Nat :=
  if 0 ≤ e then roundQuotient num (den <<< e.toNat) else roundQuotient (num <<< (-e).toNat) den

/-- The 64-bit value nearest to a positive quotient: the exponent is the least one at which the
mantissa still fits into 53 bits. -/
def nearest (num den : Nat) : Dyadic :=
  let guess : Int := (num.log2 : Int) - (den.log2 : Int) - 53
  let e := max leastExponent guess
  let e := if 1 <<< 53 < scaled num den e then e + 1 else e
  ⟨scaled num den e, e⟩

/-- Values from `2 ^ 1024` on are beyond the 64-bit format. -/
def tooLarge (d : Dyadic) : Bool :=
  0 ≤ d.exponent && 1 <<< 1024 ≤ d.mantissa <<< d.exponent.toNat

/-- The integer that a value is, when it is one. -/
def whole? (d : Dyadic) : Option Nat :=
  if 0 ≤ d.exponent then some (d.mantissa <<< d.exponent.toNat)
  else
    let unit := 1 <<< (-d.exponent).toNat
    if d.mantissa % unit = 0 then some (d.mantissa / unit) else none

end Dyadic

namespace Number

def tens (k : Nat) : Nat := Nat.pow 10 k

/-- The 64-bit value nearest to a decimal, without its sign; `none` when it is too large. Decimals
whose order of magnitude is out of the range of the format are settled by that order alone. -/
def nearest? (mantissa exponent : Int) : Option Dyadic :=
  let m := mantissa.natAbs
  let order : Int := (toString m).length + exponent
  if m = 0 || order < -400 then some ⟨0, 0⟩
  else if 400 < order then none
  else
    let d :=
      if 0 ≤ exponent then Dyadic.nearest (m * tens exponent.toNat) 1
      else Dyadic.nearest m (tens (-exponent).toNat)
    if d.tooLarge then none else some d

/-- A number that is neither infinite nor undefined once it is rounded. -/
def isFinite : Number → Bool
  | int _ => true
  | decimal m e => (nearest? m e).isSome
  | _ => false

/-- The integer that a number is, if it is whole. -/
def whole? : Number → Option Int
  | int n => some n
  | decimal m e =>
    (nearest? m e).bind fun d => d.whole?.map fun n => if m < 0 then -(n : Int) else (n : Int)
  | _ => none

example : (decimal 10 (-1)).whole? = some 1 ∧ (decimal 5 (-1)).whole? = none := by decide +kernel

example : (decimal 1 400).isFinite = false ∧ (decimal 1 308).isFinite = true := by decide +kernel

end Number

end ReviewRota
