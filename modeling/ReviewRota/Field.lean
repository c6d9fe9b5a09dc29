import ReviewRota.Checked
import ReviewRota.Identifier
import ReviewRota.Instant.Reader
import ReviewRota.Text.Blank
import ReviewRota.Text.Letters

/-!
# Fields

How the fields of entities, requests and settings are read from documents. Readers are lenient: an
identifier has several spellings, a truth value can be a word or one of the numbers 0 and 1, and an
integer can be a text. Each reader says which issue arises when a document is refused.
-/

namespace ReviewRota.Field

open Checked (issue valid)

/-- Identifiers, in any accepted spelling. -/
def identifier : Json → Checked Identifier
  | .text s =>
    match Identifier.ofText? s with
    | some i => valid i
    | none => issue .identifierSpelling (.text s)
  | .brokenText => issue .textBroken .brokenText
  | j => issue .identifierType j

/-- Words for a truth value, in lower case. -/
def truthWords : List (String × Bool) :=
  [("1", true), ("on", true), ("t", true), ("true", true), ("y", true), ("yes", true),
   ("0", false), ("off", false), ("f", false), ("false", false), ("n", false), ("no", false)]

/-- The truth value that a word stands for; the case of ASCII letters does not matter. -/
def truthWord? (s : String) : Option Bool := truthWords.lookup (s.map Char.toLower)

def isWord64 (n : Int) : Bool := -9223372036854775808 ≤ n && n < 9223372036854775808

/-- Truth values: the two constants, a word, or a number that is 0 or 1. -/
def truth : Json → Checked Bool
  | .bool b => valid b
  | .text s =>
    match truthWord? s with
    | some b => valid b
    | none => issue .truthSpelling (.text s)
  | .brokenText => issue .textBroken .brokenText
  | .number n =>
    match n.whole? with
    | some k =>
      if k = 0 then valid false else if k = 1 then valid true
      else if isWord64 k then issue .truthSpelling (.number n)
      else issue .truthType (.number n)
    | none => issue .truthType (.number n)
  | j => issue .truthType j

def text : Json → Checked String
  | .text s => valid s
  | .brokenText => issue .textBroken .brokenText
  | j => issue .textType j

/-- The longest name, in characters. -/
def nameLimit : Nat := 255

/-- Names: texts that hold between 1 and 255 characters once the blanks at both ends are gone. -/
def name : Json → Checked String
  | .text s =>
    let trimmed := Text.trim s
    if trimmed.length = 0 then issue .textTooShort (.text s)
    else if nameLimit < trimmed.length then issue .textTooLong (.text s)
    else valid trimmed
  | .brokenText => issue .textBroken .brokenText
  | j => issue .textType j

/-- Instants, written as a text or as a number of seconds. -/
def instant : Json → Checked Instant
  | .text s =>
    match Instant.ofText? s with
    | some i => valid i
    | none => issue .instantSpelling (.text s)
  | .brokenText => issue .textBroken .brokenText
  | .number n =>
    match Instant.ofNumber? n with
    | some i => valid i
    | none => issue .instantNumber (.number n)
  | j => issue .instantType j

/-- A field that may hold nothing. -/
def optional (read : Json → Checked α) : Json → Checked (Option α)
  | .null => valid none
  | j => (read j).map some

/-- Digits with single underscores between them. -/
def digitGroups : List Char → Option (List Char)
  | [] => none
  | [c] => if Text.isDecimal c then some [c] else none
  | c :: '_' :: rest => if Text.isDecimal c then (digitGroups rest).map (c :: ·) else none
  | c :: rest => if Text.isDecimal c then (digitGroups rest).map (c :: ·) else none

/-- The text before a point that is followed by zeros alone, or the whole text if there is none. -/
def withoutZeroFraction (cs : List Char) : Option (List Char) :=
  match cs.dropWhile (· ≠ '.') with
  | [] => some cs
  | _ :: zeros => if zeros.isEmpty || zeros.any (· ≠ '0') then none else some (cs.takeWhile (· ≠ '.'))

/-- The digits of an integer and whether it is negative: blanks at the ends, one sign, underscores
between digits and a fraction of zeros are allowed. -/
def integerDigits? (s : String) : Option (Bool × List Char) :=
  let cs := Text.trimChars s.toList
  let (negative, cs) := match cs with
    | '-' :: rest => (true, rest)
    | '+' :: rest => (false, rest)
    | _ => (false, cs)
  ((withoutZeroFraction cs).bind digitGroups).map fun ds => (negative, ds)

/-- The most digits that a text of an integer may have. -/
def digitLimit : Nat := 4300

/-- Integers: a whole number, a truth value, or a text. -/
def integer : Json → Checked Int
  | .bool b => valid (if b then 1 else 0)
  | .text s =>
    match integerDigits? s with
    | some (negative, ds) =>
      if digitLimit < ds.length then issue .integerTooLarge (.text s)
      else
        let n : Int := Text.decimalNumber ds
        valid (if negative then -n else n)
    | none => issue .integerSpelling (.text s)
  | .brokenText => issue .textBroken .brokenText
  | .number (.int n) => valid n
  | .number n =>
    match n.whole? with
    | some k => if isWord64 k then valid k else issue .integerTooLarge (.number n)
    | none => if n.isFinite then issue .integerFraction (.number n) else issue .integerInfinite (.number n)
  | j => issue .integerType j

/-- Lists, element by element. -/
def list (read : Json → Checked α) : Json → Checked (List α)
  | .list xs => Checked.all (xs.zipIdx.map fun (x, i) => (read x).under (.index i))
  | j => issue .notList j

/-- The members of an object. Anything else is refused with the given issue. -/
def members (refusal : IssueKind) (j : Json) (read : List (Json.Name × Json) → Checked α) : Checked α :=
  match j with
  | .object ms => read ms
  | _ => issue refusal j

/-- A member that has to be there. -/
def required (name : String) (read : Json → Checked α) (ms : List (Json.Name × Json)) : Checked α :=
  match Json.lookup? name ms with
  | some j => (read j).under (.key name)
  | none => Checked.invalid [⟨.missing, [.key name], .object ms⟩]

/-- A member with a value of its own for the case that it is not there. -/
def defaulted (name : String) (value : α) (read : Json → Checked α) (ms : List (Json.Name × Json)) :
    Checked α :=
  match Json.lookup? name ms with
  | some j => (read j).under (.key name)
  | none => valid value

end ReviewRota.Field
