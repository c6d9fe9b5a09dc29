import ReviewRota.Json.Number

/-!
# Documents

The values that requests, settings and rows are made of, and the look-up of a member of an object.
An object keeps its members in the order in which they were written; a name that is written twice
stands for the last of its values.
-/

namespace ReviewRota

/-- The name of a member of an object. -/
inductive Json.Name where
  | text (s : String)
  /-- A text that holds half of a surrogate pair, as its code points. -/
  | broken (codes : List Nat)
deriving DecidableEq, Inhabited

instance : Coe String Json.Name := ⟨.text⟩

inductive Json where
  | null
  | bool (b : Bool)
  | number (n : Number)
  | text (s : String)
  /-- A text that holds half of a surrogate pair, so that it is no sequence of characters. -/
  | brokenText
  | list (items : List Json)
  | object (members : List (Json.Name × Json))
deriving Inhabited

namespace Json

/-- A name that answers leave out: one that begins with `_sa`. -/
def Name.isHidden : Name → Bool
  | text s => "_sa".toList.isPrefixOf s.toList
  | broken codes => ("_sa".toList.map Char.toNat).isPrefixOf codes

/-- A name that is a sequence of characters. -/
def Name.isWhole : Name → Bool
  | text _ => true
  | broken _ => false

def int (n : Int) : Json := .number (.int n)

/-- The value of the last of the members with a name. -/
def lookup? (name : Name) : List (Name × Json) → Option Json
  | [] => none
  | (key, value) :: rest =>
    match lookup? name rest with
    | some v => some v
    | none => if key = name then some value else none

/-- A member of a document; anything but an object has none. -/
def member? (name : Name) : Json → Option Json
  | object members => lookup? name members
  | _ => none

/-- The elements of a list; anything else has none. -/
def items : Json → List Json
  | list xs => xs
  | _ => []

/-- The text of a document that is one. -/
def text? : Json → Option String
  | text s => some s
  | _ => none

/-- The truth value of a document that is one. -/
def bool? : Json → Option Bool
  | bool b => some b
  | _ => none

/-- The integer of a document that is one. -/
def int? : Json → Option Int
  | number (.int n) => some n
  | _ => none

/-- A number, or a truth value, which counts as one. -/
def isNumeric : Json → Bool
  | number _ | bool _ => true
  | _ => false

/-- The most digits of an integer that is read. -/
def digitLimit : Nat := 4300

mutual

/-- A document that can be read: its lists and objects stand at most `room` deep in one another, and no
integer in it has too many digits. -/
def isReadable : Nat → Json → Bool
  | _, number (.int n) => n.natAbs < Nat.pow 10 digitLimit
  | room, list xs => 0 < room && allReadable (room - 1) xs
  | room, object ms => 0 < room && membersReadable (room - 1) ms
  | _, _ => true

/-- Every element can be read. -/
def allReadable : Nat → List Json → Bool
  | _, [] => true
  | room, x :: xs => x.isReadable room && allReadable room xs

/-- Every member can be read. -/
def membersReadable : Nat → List (Name × Json) → Bool
  | _, [] => true
  | room, (_, v) :: ms => v.isReadable room && membersReadable room ms

end

mutual

/-- A document that can be told again: values stand at most `room` deep in it, no number in it is infinite
or undefined, and no text in it is broken, hidden members left aside. -/
def isWritable : Nat → Json → Bool
  | _, number n => n.isFinite
  | _, brokenText => false
  | room, list xs => allWritable room xs
  | room, object ms => membersWritable room ms
  | _, _ => true

/-- There is room for every element. -/
def allWritable : Nat → List Json → Bool
  | _, [] => true
  | room, x :: xs => 0 < room && x.isWritable (room - 1) && allWritable room xs

/-- There is room for every member that is not hidden, and its name is not broken. -/
def membersWritable : Nat → List (Name × Json) → Bool
  | _, [] => true
  | room, (name, v) :: ms =>
    (name.isHidden || name.isWhole && 0 < room && v.isWritable (room - 1)) && membersWritable room ms

end

/-- A member set to a value: in place if the name is there already, at the end otherwise. -/
def setMember (name : Name) (value : Json) : List (Name × Json) → List (Name × Json)
  | [] => [(name, value)]
  | (key, old) :: rest =>
    if key = name then (key, value) :: rest else (key, old) :: setMember name value rest

end Json

end ReviewRota
