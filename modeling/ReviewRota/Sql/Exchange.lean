import ReviewRota.Dialogue
import ReviewRota.Sql.Statement

/-!
# Exchanges with a database

What a call asks of a database connection and of its surroundings, and the shapes of the answers. A
statement is sent for at most one row, for all rows, or for its effect alone.
-/

namespace ReviewRota.Sql

/-- How much of an answer a statement is sent for. -/
inductive Mode where
  | one
  | all
  | effect
deriving DecidableEq

/-- What a database answers to a statement. -/
inductive Answer where
  | nothing
  | row (r : Row)
  | rows (rs : List Row)
  /-- A value that is no row. -/
  | plain (r : Row)
deriving Inhabited

namespace Answer

/-- At most one row. A value that is no row counts as none; several rows are no entity. -/
def row? : Answer → Except Failure (Option Row)
  | nothing | plain _ => .ok none
  | row r => .ok (some r)
  | rows rs => .error (.invalid [⟨.notObject, [], .list (rs.map Row.toJson)⟩])

def allRows : Answer → List Row
  | rows rs => rs
  | row r => [r]
  | nothing | plain _ => []

/-- The answer to a statement that was sent for at most one row, as a document. -/
def oneJson : Answer → Json
  | nothing | plain _ => .null
  | row r => r.toJson
  | rows rs => .list (rs.map Row.toJson)

/-- The answer to a statement that was sent for all rows, as a document. -/
def allJson (a : Answer) : Json := .list (a.allRows.map Row.toJson)

/-- The answer to a statement that was sent for its effect, as a document. -/
def rawJson : Answer → Json
  | nothing => .null
  | row r | plain r => r.toJson
  | rows rs => .list (rs.map Row.toJson)

end Answer

inductive Ask where
  | send (mode : Mode) (s : Statement)
  | clock
  | freshId

@[reducible] def Ask.Reply : Ask → Type
  | .send .. => Answer
  | .clock => Instant
  | .freshId => Identifier

/-- A dialogue with a database connection. -/
abbrev Exchange (α : Type) := Dialogue Ask Ask.Reply α

namespace Exchange

/-- Send a statement; its failures are passed on. -/
def send (mode : Mode) (s : Statement) : Exchange Answer := Dialogue.put (Ask.send mode s)

/-- Send a statement that writes; a duplicate is a conflict. -/
def write (mode : Mode) (s : Statement) : Exchange Answer :=
  Dialogue.putOr (Ask.send mode s) fun f =>
    match f with
    | .duplicate _ => .plain .conflict
    | f => f

def clock : Exchange Instant := Dialogue.put Ask.clock

def freshId : Exchange Identifier := Dialogue.put Ask.freshId

/-- A checked value, or the failure of one that is not valid. -/
def checked : Checked α → Exchange α
  | .valid a => .done a
  | .invalid is => .fail (.invalid is)

/-- The entity of a row, or the refusal that there is none. -/
def entity (read : Row → Checked α) (absent : Failure) (a : Answer) : Exchange α := do
  match ← Dialogue.ofExcept a.row? with
  | some r => checked (read r)
  | none => .fail absent

/-- The entities of rows, one after the other. -/
def entities (read : Row → Checked α) (a : Answer) : Exchange (List α) :=
  Dialogue.each (fun r => checked (read r)) a.allRows

end Exchange

end ReviewRota.Sql
