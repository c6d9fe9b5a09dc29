import ReviewRota.Cell
import ReviewRota.Entity.PullRequest
import ReviewRota.Entity.Roster

/-!
# Data and rows

The values that stand in columns and in parameters of statements, and the rows that a database
answers with. A row is read into an entity field by field; a value that is no value of the column's
own kind is read like a document.
-/

namespace ReviewRota.Sql

inductive Datum where
  | null
  | id (i : Identifier)
  | text (s : String)
  | truth (b : Bool)
  | instant (i : Instant)
  | status (s : Status)
  /-- Any other value. -/
  | other (j : Json)
deriving Inhabited

namespace Datum

def toJson : Datum → Json
  | null => .null
  | id i => .text i.text
  | text s => .text s
  | truth b => .bool b
  | instant i => .text i.text
  | status s => .text s.word
  | other j => j

/-- The value that a document gives to a column. -/
def ofJson : Json → Datum
  | .null => null
  | .text s => text s
  | .bool b => truth b
  | j => other j

/-- A value as it is passed on from a column of identifiers. -/
def cell : Datum → Cell
  | id i => .identifier i
  | d => .other d.toJson

def ofCell : Cell → Datum
  | .identifier i => id i
  | .other j => ofJson j

open Checked (issue valid)

/-- The value of an identifier column. -/
def readIdentifier : Datum → Checked Identifier
  | id i => valid i
  | d => Field.identifier d.toJson

/-- The value of a text column. -/
def readText : Datum → Checked String
  | text s => valid s
  | id i => issue .textType (.text i.text)
  | instant i => issue .textType (.text i.text)
  | d => Field.text d.toJson

/-- The value of a column of truth values. -/
def readTruth : Datum → Checked Bool
  | truth b => valid b
  | id i => issue .truthType (.text i.text)
  | instant i => issue .truthType (.text i.text)
  | d => Field.truth d.toJson

/-- The value of a column of instants. -/
def readInstant : Datum → Checked Instant
  | instant i => valid i
  | id i => issue .instantType (.text i.text)
  | d => Field.instant d.toJson

/-- The value of a column of instants that may hold nothing. -/
def readInstant? : Datum → Checked (Option Instant)
  | null => valid none
  | d => d.readInstant.map some

/-- The value of a status column. -/
def readStatus : Datum → Checked Status
  | status s => valid s
  | d => Status.ofJson d.toJson

end Datum

/-- The named values of a row. -/
abbrev Row := List (String × Datum)

namespace Row

def toJson (r : Row) : Json := .object (r.map fun (name, d) => (name, d.toJson))

def find? (name : String) : Row → Option Datum
  | [] => none
  | (key, d) :: rest => if key = name then some d else find? name rest

/-- A column that a row has to have. -/
def required (name : String) (read : Datum → Checked α) (r : Row) : Checked α :=
  match find? name r with
  | some d => (read d).under (.key name)
  | none => .invalid [⟨.missing, [.key name], toJson r⟩]

/-- A column with a value for the case that a row does not have it. -/
def defaulted (name : String) (value : α) (read : Datum → Checked α) (r : Row) : Checked α :=
  match find? name r with
  | some d => (read d).under (.key name)
  | none => .valid value

def team (r : Row) : Checked Team :=
  Team.mk <$> required "id" Datum.readIdentifier r <*> required "name" Datum.readText r

def user (r : Row) : Checked User :=
  User.mk <$> required "id" Datum.readIdentifier r <*> required "username" Datum.readText r <*>
    required "is_active" Datum.readTruth r <*> required "team_id" Datum.readIdentifier r

/-- The pull request in a row. -/
def pullRequest (r : Row) : Checked PullRequest :=
  PullRequest.mk <$> required "id" Datum.readIdentifier r <*> required "name" Datum.readText r <*>
    required "author_id" Datum.readIdentifier r <*> defaulted "status" .opened Datum.readStatus r <*>
    required "created_at" Datum.readInstant r <*> defaulted "merged_at" none Datum.readInstant? r

end Row

end ReviewRota.Sql
