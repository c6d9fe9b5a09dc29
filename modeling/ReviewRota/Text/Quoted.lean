import ReviewRota.Text.Hex

/-!
# Quoted texts

A text shown inside a message stands in single quotes, or in double quotes when it holds a single
quote and no double one. The quote in use, the backslash and the characters without a picture of
their own are escaped.
-/

namespace ReviewRota.Text

def singleQuote : Char := Char.ofNat 39

def doubleQuote : Char := Char.ofNat 34

def backslash : Char := Char.ofNat 92

/-- One character of a quoted text. Control characters are written by their escape letter or by two
hexadecimal digits. -/
def quotedChar (quote c : Char) : List Char :=
  if c = quote || c = backslash then [backslash, c]
  else if c = '\n' then [backslash, 'n']
  else if c = '\r' then [backslash, 'r']
  else if c = '\t' then [backslash, 't']
  else if c.toNat < 32 || (127 ≤ c.toNat && c.toNat < 161) || c.toNat = 173 then
    backslash :: 'x' :: hexDigits 2 c.toNat
  else [c]

def quoted (s : String) : String :=
  let cs := s.toList
  let quote := if cs.contains singleQuote && !cs.contains doubleQuote then doubleQuote else singleQuote
  String.ofList (quote :: cs.flatMap (quotedChar quote) ++ [quote])

end ReviewRota.Text
