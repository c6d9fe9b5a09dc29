import ReviewRota.Text.Hex

/-!
# Identifiers

Teams, users and pull requests are identified by numbers of 128 bits. An identifier has one
canonical text, thirty-two lower-case hexadecimal digits in five groups, and a few more spellings
that readers accept: the digits without hyphens, the canonical form in braces, and the canonical
form after `urn:uuid:`, each with digits in either case. Identifiers are ordered as numbers, which
is the order of their canonical texts.
-/

namespace ReviewRota

/-- A number of 128 bits that names a stored thing. -/
structure Identifier where
  bits : BitVec 128
deriving DecidableEq, Inhabited

namespace Identifier

/-- The identifier of a number, which is taken modulo `2 ^ 128`. -/
def ofNat (n : Nat) : Identifier := ⟨BitVec.ofNat 128 n⟩

def toNat (i : Identifier) : Nat := i.bits.toNat

def le (a b : Identifier) : Bool := a.toNat ≤ b.toNat

def digits (i : Identifier) : List Char := Text.hexDigits 32 i.toNat

/-- Thirty-two digits in groups of 8, 4, 4, 4 and 12, joined by hyphens. -/
def grouped (ds : List Char) : List Char :=
  ds.take 8 ++ '-' :: (ds.drop 8).take 4 ++ '-' :: (ds.drop 12).take 4 ++ '-' :: (ds.drop 16).take 4 ++
    '-' :: ds.drop 20

def text (i : Identifier) : String := String.ofList (grouped i.digits)

def ofDigits? (cs : List Char) : Option Identifier :=
  if cs.length = 32 then (Text.hexNumber? cs).map ofNat else none

/-- Digits in the five groups, with hyphens between them. -/
def ofGrouped? (cs : List Char) : Option Identifier :=
  if cs.length = 36 && [8, 13, 18, 23].all (fun i => cs[i]? = some '-') then
    ofDigits? (cs.take 8 ++ (cs.drop 9).take 4 ++ (cs.drop 14).take 4 ++ (cs.drop 19).take 4 ++ cs.drop 24)
  else none

/-- The word that may stand before the canonical form. -/
def urn : List Char := "urn:uuid:".toList

/-- The identifier that a text spells, in any of the accepted spellings. -/
def ofChars? (cs : List Char) : Option Identifier :=
  if cs.length = 32 then ofDigits? cs
  else if cs.length = 38 && cs.head? = some (Char.ofNat 0x7B) && cs.getLast? = some (Char.ofNat 0x7D) then
    ofGrouped? ((cs.drop 1).take 36)
  else if urn.isPrefixOf cs then ofGrouped? (cs.drop 9)
  else ofGrouped? cs

/-- The identifier that a text spells. -/
def ofText? (s : String) : Option Identifier := ofChars? s.toList

/-- The identifiers without repetition, in increasing order: a set of identifiers as a list. -/
def setOf (ids : List Identifier) : List Identifier := ids.eraseDups.mergeSort le

example : (ofText? "urn:uuid:12345678-1234-1234-1234-123456789ABC").map text =
    some "12345678-1234-1234-1234-123456789abc" := by decide +kernel

end Identifier

end ReviewRota
