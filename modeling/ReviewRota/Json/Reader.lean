import ReviewRota.Json.Basic
import ReviewRota.Text.Hex
import ReviewRota.Text.Quoted

/-!
# Reading documents

A text is read in one pass, character by character. The scanner keeps the token that it is in the
middle of; every finished token goes to the builder, which keeps the containers that are still
open. Both are machines with a total step, so reading is a fold over the characters and needs no
bound of its own.
-/

namespace ReviewRota.Json.Reader

/-- Why a text is not read. -/
inductive Refusal where
  /-- The text is not the written form of a document. -/
  | malformed
  /-- An integer has more digits than are read. -/
  | oversized
  /-- Lists and objects stand deeper in one another than they are read. -/
  | nested
deriving DecidableEq

/-- A text under construction: its code points, last one first, and an upper half of a surrogate pair
that waits for its lower half. -/
structure Draft where
  codes : List Nat := []
  upper : Option Nat := none

namespace Draft

/-- An upper half that is followed by something else stays alone. -/
def settle (d : Draft) : Draft :=
  match d.upper with
  | none => d
  | some n => ⟨n :: d.codes, none⟩

def push (d : Draft) (n : Nat) : Draft := ⟨n :: d.settle.codes, none⟩

def pushUnit (d : Draft) (n : Nat) : Draft :=
  match d.upper with
  | some u =>
    if 0xDC00 ≤ n && n < 0xE000 then ⟨(0x10000 + (u - 0xD800) * 0x400 + (n - 0xDC00)) :: d.codes, none⟩
    else if 0xD800 ≤ n && n < 0xDC00 then { d.settle with upper := some n }
    else d.push n
  | none => if 0xD800 ≤ n && n < 0xDC00 then { d with upper := some n } else d.push n

/-- The text that is built; where it holds half of a pair, it is broken. -/
def finish (d : Draft) : Name :=
  let codes := d.settle.codes.reverse
  if codes.any fun n => 0xD800 ≤ n && n < 0xE000 then .broken codes
  else .text (String.ofList (codes.map Char.ofNat))

end Draft

/-- What stands between the blanks of a written document. -/
inductive Token where
  | openList
  | closeList
  | openObject
  | closeObject
  | comma
  | colon
  | text (name : Name)
  /-- A run of letters, digits, signs and points. -/
  | word (chars : List Char)

/-- The digits at the front of a run, and the rest. -/
def spanDigits (cs : List Char) : List Char × List Char :=
  (cs.takeWhile Text.isDecimal, cs.dropWhile Text.isDecimal)

/-- The digits after a point at the front of a run, and the rest. A point without a digit after it does
not belong to the number before it. -/
def fraction? : List Char → Option (List Char × List Char)
  | '.' :: more =>
    let (ds, rest) := spanDigits more
    if ds.isEmpty then none else some (ds, rest)
  | _ => none

/-- The exponent at the front of a run, and the rest. It needs a digit as well. -/
def exponent? : List Char → Option (Int × List Char)
  | c :: more =>
    if c = 'e' || c = 'E' then
      let (negative, more) := match more with
        | '-' :: more => (true, more)
        | '+' :: more => (false, more)
        | _ => (false, more)
      let (ds, rest) := spanDigits more
      let n : Int := Text.decimalNumber ds
      if ds.isEmpty then none else some (if negative then -n else n, rest)
    else none
  | [] => none

/-- The unsigned number at the front of a run, and the rest. Zero has no digit after it. The number is
as long as it can be, and an integer has to have few enough digits before the rest is looked at. -/
def unsigned (negative : Bool) (cs : List Char) : Except Refusal (Number × List Char) :=
  let (whole, rest) := match cs with
    | '0' :: rest => (['0'], rest)
    | _ => spanDigits cs
  let signed (n : Nat) : Int := if negative then -(n : Int) else (n : Int)
  if whole.isEmpty then .error .malformed
  else
    match fraction? rest, exponent? rest with
    | some (ds, rest), _ =>
      let (e, rest) := (exponent? rest).getD (0, rest)
      .ok (.decimal (signed (Text.decimalNumber (whole ++ ds))) (e - (ds.length : Int)), rest)
    | none, some (e, rest) => .ok (.decimal (signed (Text.decimalNumber whole)) e, rest)
    | none, none =>
      if digitLimit < whole.length then .error .oversized
      else .ok (.int (signed (Text.decimalNumber whole)), rest)

/-- The number that a run is. -/
def numberValue (cs : List Char) : Except Refusal Json := do
  let (n, rest) ← match cs with
    | '-' :: rest => unsigned true rest
    | _ => unsigned false cs
  if rest.isEmpty then .ok (.number n) else .error .malformed

def wordValue (cs : List Char) : Except Refusal Json :=
  match String.ofList cs with
  | "null" => .ok .null
  | "true" => .ok (.bool true)
  | "false" => .ok (.bool false)
  | "NaN" => .ok (.number .undefined)
  | "Infinity" => .ok (.number (.infinite false))
  | "-Infinity" => .ok (.number (.infinite true))
  | _ => numberValue cs

/-- A container that is still open, with what it holds so far. -/
inductive Container where
  /-- A list, last element first. -/
  | list (items : List Json)
  /-- An object and the name whose value comes next. -/
  | object (members : List (Name × Json)) (name : Name)

inductive Expected where
  | value
  | valueOrClose
  | name
  | nameOrClose
  | colon
  | separator
  | nothing (result : Json)

/-- The builder: the open containers, innermost first, and what may come next. -/
structure Builder where
  opened : List Container := []
  expected : Expected := .value

namespace Builder

/-- Put a finished value where it belongs. -/
def give (opened : List Container) (v : Json) : Builder :=
  match opened with
  | [] => ⟨[], .nothing v⟩
  | .list items :: rest => ⟨.list (v :: items) :: rest, .separator⟩
  | .object members name :: rest => ⟨.object (setMember name v members) name :: rest, .separator⟩

/-- The document of a text. -/
def textValue : Name → Json
  | .text s => .text s
  | .broken _ => .brokenText

variable (room : Nat)

/-- One more container, where there is room for it. -/
def push (opened : List Container) (c : Container) (expected : Expected) : Except Refusal Builder :=
  if opened.length < room then .ok ⟨c :: opened, expected⟩ else .error .nested

def begin (opened : List Container) : Token → Except Refusal Builder
  | .openList => push room opened (.list []) .valueOrClose
  | .openObject => push room opened (.object [] default) .nameOrClose
  | .text name => .ok (give opened (textValue name))
  | .word cs => (wordValue cs).map (give opened)
  | _ => .error .malformed

def step (b : Builder) (t : Token) : Except Refusal Builder :=
  match b.expected, t, b.opened with
  | .value, t, opened => begin room opened t
  | .valueOrClose, .closeList, .list items :: rest => .ok (give rest (.list items.reverse))
  | .valueOrClose, t, opened => begin room opened t
  | .nameOrClose, .closeObject, .object members _ :: rest => .ok (give rest (.object members))
  | .nameOrClose, .text name, .object members _ :: rest => .ok ⟨.object members name :: rest, .colon⟩
  | .name, .text name, .object members _ :: rest => .ok ⟨.object members name :: rest, .colon⟩
  | .colon, .colon, opened => .ok ⟨opened, .value⟩
  | .separator, .comma, .list items :: rest => .ok ⟨.list items :: rest, .value⟩
  | .separator, .comma, .object members n :: rest => .ok ⟨.object members n :: rest, .name⟩
  | .separator, .closeList, .list items :: rest => .ok (give rest (.list items.reverse))
  | .separator, .closeObject, .object members _ :: rest => .ok (give rest (.object members))
  | _, _, _ => .error .malformed

end Builder

inductive Position where
  | between
  | inText (draft : Draft)
  | afterBackslash (draft : Draft)
  /-- Inside the four digits of a unit, with those read so far, last one first. -/
  | inUnit (draft : Draft) (digits : List Char)
  /-- Inside a word, with its characters so far, last one first. -/
  | inWord (chars : List Char)

/-- The reader: where the scanner stands and what the builder holds. -/
structure State where
  position : Position := .between
  builder : Builder := {}

def isSpace (c : Char) : Bool := c = ' ' || c = '\t' || c = '\n' || c = '\r'

def isWordChar (c : Char) : Bool := c.isAlphanum || c = '-' || c = '+' || c = '.'

variable (room : Nat)

/-- A character that stands outside texts and words. -/
def outside (b : Builder) (c : Char) : Except Refusal State :=
  let emit (t : Token) : Except Refusal State := (b.step room t).map fun b => ⟨.between, b⟩
  if isSpace c then .ok ⟨.between, b⟩
  else if c = Text.doubleQuote then .ok ⟨.inText {}, b⟩
  else if isWordChar c then .ok ⟨.inWord [c], b⟩
  else if c = '[' then emit .openList
  else if c = ']' then emit .closeList
  else if c.toNat = 0x7B then emit .openObject
  else if c.toNat = 0x7D then emit .closeObject
  else if c = ',' then emit .comma
  else if c = ':' then emit .colon
  else .error .malformed

/-- The character that an escape letter stands for. -/
def escaped? (c : Char) : Option Char :=
  if c = Text.doubleQuote || c = Text.backslash || c = '/' then some c
  else if c = 'b' then some (Char.ofNat 8)
  else if c = 'f' then some (Char.ofNat 12)
  else if c = 'n' then some '\n'
  else if c = 'r' then some '\r'
  else if c = 't' then some '\t'
  else none

def step (s : State) (c : Char) : Except Refusal State :=
  match s.position with
  | .between => outside room s.builder c
  | .inWord cs =>
    if isWordChar c then .ok { s with position := .inWord (c :: cs) }
    else (s.builder.step room (.word cs.reverse)).bind fun b => outside room b c
  | .inText d =>
    if c = Text.doubleQuote then (s.builder.step room (.text d.finish)).map fun b => ⟨.between, b⟩
    else if c = Text.backslash then .ok { s with position := .afterBackslash d }
    else if c.toNat < 32 then .error .malformed
    else .ok { s with position := .inText (d.push c.toNat) }
  | .afterBackslash d =>
    if c = 'u' then .ok { s with position := .inUnit d [] }
    else match escaped? c with
      | some e => .ok { s with position := .inText (d.push e.toNat) }
      | none => .error .malformed
  | .inUnit d digits =>
    match Text.hexValue? c with
    | none => .error .malformed
    | some _ =>
      let digits := c :: digits
      if digits.length < 4 then .ok { s with position := .inUnit d digits }
      else .ok { s with position := .inText (d.pushUnit ((Text.hexNumber? digits.reverse).getD 0)) }

def finish (s : State) : Except Refusal Json := do
  let b ← match s.position with
    | .between => .ok s.builder
    | .inWord cs => s.builder.step room (.word cs.reverse)
    | _ => .error .malformed
  match b.expected with
  | .nothing v => .ok v
  | _ => .error .malformed

/-- The document that a text writes down, where lists and objects stand at most `room` deep in one
another. -/
def read (s : String) : Except Refusal Json :=
  (s.toList.foldlM (step room) {}).bind (finish room)

end ReviewRota.Json.Reader
