/-!
# Blank characters

The characters with the Unicode property White_Space, and the trimming of a text at both ends.
-/

namespace ReviewRota.Text

/-- The closed ranges of code points with the property White_Space, in increasing order. -/
def blankRanges : List (Nat × Nat) :=
  [(0x9, 0xD), (0x20, 0x20), (0x85, 0x85), (0xA0, 0xA0), (0x1680, 0x1680), (0x2000, 0x200A),
   (0x2028, 0x2029), (0x202F, 0x202F), (0x205F, 0x205F), (0x3000, 0x3000)]

/-- A character is blank when its code point lies in one of the ranges. -/
def isBlank (c : Char) : Bool :=
  blankRanges.any fun r => r.1 ≤ c.toNat && c.toNat ≤ r.2

/-- The characters left when the blanks at both ends are dropped. -/
def trimChars (cs : List Char) : List Char :=
  ((cs.dropWhile isBlank).reverse.dropWhile isBlank).reverse

/-- The text without the blanks at its two ends. -/
def trim (s : String) : String :=
  String.ofList (trimChars s.toList)

example : isBlank ' ' ∧ isBlank '\t' ∧ isBlank '\u3000' ∧ ¬ isBlank '\u200b' := by decide

example : trimChars [' ', 'a', ' ', 'b', '\n'] = ['a', ' ', 'b'] := by decide

end ReviewRota.Text
