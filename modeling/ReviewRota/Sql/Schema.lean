/-!
# The schema

The tables of the database: their columns, keys and references, and the statements that create
them. The order of the tables is such that a table comes after the tables that it refers to.
-/

namespace ReviewRota.Sql

inductive ColumnKind where
  | identifier
  | text
  | truth
  /-- A time without its offset from universal time. -/
  | localTime
  | instant
  | status
deriving DecidableEq

namespace ColumnKind

/-- The type of a column in the statement that creates the table. -/
def declared : ColumnKind → String
  | identifier => "UUID"
  | text => "VARCHAR(255)"
  | truth => "BOOLEAN"
  | localTime => "TIMESTAMP WITHOUT TIME ZONE"
  | instant => "TIMESTAMP WITH TIME ZONE"
  | status => "VARCHAR(16)"

/-- The type that a parameter is marked with, if it is marked. -/
def cast? : ColumnKind → Option String
  | identifier => some "UUID"
  | text => some "VARCHAR"
  | localTime => some "TIMESTAMP WITHOUT TIME ZONE"
  | instant => some "TIMESTAMP WITH TIME ZONE"
  | truth | status => none

end ColumnKind

structure Column where
  name : String
  kind : ColumnKind
  /-- The column always holds a value. -/
  required : Bool := true
  /-- What the database puts in when nothing is given. -/
  serverDefault : Option String := none
  /-- A new row always gets a value here, if only that of the kind's own. -/
  always : Bool := false
  /-- Every update puts in the present time unless it is given another value. -/
  stamped : Bool := false
deriving DecidableEq

/-- What happens to a row when the row it refers to is deleted. -/
inductive OnDelete where
  | restrict
  | cascade
deriving DecidableEq

/-- A column that refers to the identifier of another table. -/
structure Reference where
  column : String
  table : String
  onDelete : OnDelete := .restrict
deriving DecidableEq

/-- A combination of columns that no two rows share. -/
structure Unique where
  name : Option String
  columns : List String
deriving DecidableEq

structure Table where
  name : String
  columns : List Column
  primaryKey : Unique
  uniques : List Unique := []
  references : List Reference := []
  indexed : List String := []
deriving DecidableEq

namespace Table

def column? (t : Table) (name : String) : Option Column := t.columns.find? fun c => c.name = name

end Table

namespace Schema

def id : Column := ⟨"id", .identifier, true, none, false, false⟩

/-- The name of a team or a pull request. -/
def name : Column := ⟨"name", .text, true, none, false, false⟩

/-- The time at which the database stored the row first. -/
def created : Column := ⟨"created", .localTime, false, some "now()", false, false⟩

/-- The time of the last update. -/
def modified : Column := ⟨"modified", .localTime, false, none, false, true⟩

def username : Column := ⟨"username", .text, true, none, false, false⟩

def isActive : Column := ⟨"is_active", .truth, true, some "true", false, false⟩

def teamId : Column := ⟨"team_id", .identifier, true, none, false, false⟩

/-- The author of a pull request. -/
def authorId : Column := ⟨"author_id", .identifier, true, none, false, false⟩

/-- The status of a pull request. -/
def status : Column := ⟨"status", .status, true, none, true, false⟩

/-- The time at which a pull request was created. -/
def createdAt : Column := ⟨"created_at", .instant, true, none, false, false⟩

/-- The time at which a pull request was merged. -/
def mergedAt : Column := ⟨"merged_at", .instant, false, none, false, false⟩

/-- The pull request of a pair. -/
def pullRequestId : Column := ⟨"pull_request_id", .identifier, true, none, false, false⟩

def userId : Column := ⟨"user_id", .identifier, true, none, false, false⟩

def teams : Table where
  name := "team"
  columns := [id, name, created, modified]
  primaryKey := ⟨none, ["id"]⟩
  uniques := [⟨none, ["name"]⟩]

def users : Table where
  name := "users"
  columns := [id, username, isActive, teamId, created, modified]
  primaryKey := ⟨none, ["id"]⟩
  uniques := [⟨some "users_team_username_unique", ["team_id", "username"]⟩]
  references := [⟨"team_id", "team", .restrict⟩]
  indexed := ["team_id"]

def pullRequests : Table where
  name := "pull_request"
  columns := [id, name, authorId, status, createdAt, mergedAt]
  primaryKey := ⟨none, ["id"]⟩
  references := [⟨"author_id", "users", .restrict⟩]

/-- The table of pairs of a pull request and a reviewer. -/
def reviewers : Table where
  name := "pull_request_reviewer"
  columns := [pullRequestId, userId]
  primaryKey := ⟨some "pull_request_reviewer_pk", ["pull_request_id", "user_id"]⟩
  references := [⟨"pull_request_id", "pull_request", .cascade⟩, ⟨"user_id", "users", .restrict⟩]
  indexed := ["user_id"]

/-- All tables, each after those that it refers to. -/
def tables : List Table := [teams, users, pullRequests, reviewers]

def table? (name : String) : Option Table := tables.find? fun t => t.name = name

end Schema

/-! ## Creating the tables -/

def parenthesised (names : List String) : String := "(" ++ String.intercalate ", " names ++ ")"

def Column.declaration (c : Column) : String :=
  c.name ++ " " ++ c.kind.declared ++ (c.serverDefault.map (" DEFAULT " ++ ·)).getD "" ++
    (if c.required then " NOT NULL" else "")

/-- A constraint with its name in front, if it has one. -/
def constraintText (name : Option String) (text : String) : String :=
  (name.map fun n => "CONSTRAINT " ++ n ++ " ").getD "" ++ text

def Reference.declaration (r : Reference) : String :=
  constraintText (some (r.table ++ "_id_fk"))
    ("FOREIGN KEY(" ++ r.column ++ ") REFERENCES " ++ r.table ++ " (id) ON DELETE " ++
      (match r.onDelete with
        | .restrict => "RESTRICT"
        | .cascade => "CASCADE"))

namespace Table

/-- The statement that creates the table. -/
def creation (t : Table) : String :=
  let parts := t.columns.map Column.declaration ++
    constraintText t.primaryKey.name ("PRIMARY KEY " ++ parenthesised t.primaryKey.columns) ::
      t.uniques.map (fun u => constraintText u.name ("UNIQUE " ++ parenthesised u.columns)) ++
    t.references.map Reference.declaration
  "CREATE TABLE IF NOT EXISTS " ++ t.name ++ " ( " ++ String.intercalate ", " parts ++ " )"

/-- The statements that create the indexes of the table. -/
def indexCreations (t : Table) : List String :=
  t.indexed.map fun column =>
    "CREATE INDEX IF NOT EXISTS ix_" ++ t.name ++ "_" ++ column ++ " ON " ++ t.name ++ " (" ++ column ++ ")"

end Table

/-- All statements that create the tables and their indexes, in order. -/
def Schema.creation : List String :=
  Schema.tables.flatMap fun t => t.creation :: t.indexCreations

end ReviewRota.Sql
