import ReviewRota.Json.Basic
import ReviewRota.Text.Quoted

/-!
# Writing documents

The text of a document on one line and in ASCII alone: every other character is written by its
UTF-16 units.
-/

namespace ReviewRota.Json

/-- One UTF-16 unit, escaped. -/
def unitText (n : Nat) : List Char := Text.backslash :: 'u' :: Text.hexDigits 4 n

/-- One code point inside a written text. -/
def codeText (n : Nat) : List Char :=
  if n = Text.doubleQuote.toNat || n = Text.backslash.toNat then [Text.backslash, Char.ofNat n]
  else if n < 32 || 127 ≤ n then
    if n < 0x10000 then unitText n
    else unitText (0xD800 + (n - 0x10000) / 0x400) ++ unitText (0xDC00 + (n - 0x10000) % 0x400)
  else [Char.ofNat n]

/-- A text of code points. -/
def codesText (codes : List Nat) : String :=
  String.ofList (Text.doubleQuote :: codes.flatMap codeText ++ [Text.doubleQuote])

def textText (s : String) : String := codesText (s.toList.map Char.toNat)

def nameText : Name → String
  | .text s => textText s
  | .broken codes => codesText codes

def numberText : Number → String
  | .int n => toString n
  | .decimal m e => toString m ++ "e" ++ toString e
  | .infinite negative => if negative then "-Infinity" else "Infinity"
  | .undefined => "NaN"

mutual

/-- The written form of a document. -/
def write : Json → String
  | null => "null"
  | bool b => if b then "true" else "false"
  | number n => numberText n
  | text s => textText s
  | brokenText => textText "\ufffd"
  | list xs => "[" ++ writeItems xs ++ "]"
  | object ms => "\x7b" ++ writeMembers ms ++ "\x7d"

/-- The elements of a list, with commas between them. -/
def writeItems : List Json → String
  | [] => ""
  | [x] => x.write
  | x :: y :: rest => x.write ++ "," ++ writeItems (y :: rest)

/-- The members of an object, with commas between them. -/
def writeMembers : List (Name × Json) → String
  | [] => ""
  | [(k, v)] => nameText k ++ ":" ++ v.write
  | (k, v) :: m :: rest => nameText k ++ ":" ++ v.write ++ "," ++ writeMembers (m :: rest)

end

end ReviewRota.Json
