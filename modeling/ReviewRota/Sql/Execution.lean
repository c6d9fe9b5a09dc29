import ReviewRota.Sql.Connection

/-!
# Executing statements

What a database does with the statements of the service. Contents say of every table which rows it
has; a row is told apart from the others of its table by its primary key. A statement is attempted
first, which settles the rows that it answers with and the rows that it writes, and is refused if
what it writes breaks a constraint: a duplicate is refused before anything else.

Nothing is said about what the database is free to choose: the order of rows that a statement does
not put in order, the defaults and the present time that it fills in, the texts of its refusals. The
deletion of rows that others may refer to and the change of a primary key, which the service never
asks for, are left out.
-/

namespace ReviewRota.Sql

/-- The rows of every table, by the name of the table. -/
abbrev Contents := String → Row → Prop

namespace Row

/-- The value of a row in a column, which is empty if the row says nothing about it. -/
def value (column : String) (r : Row) : Datum := (find? column r).getD .null

/-- What a row says about some columns. -/
def project (cs : List Column) (r : Row) : Row := cs.map fun c => (c.name, value c.name r)

/-- Two rows have the same values in some columns, none of which is empty. -/
def Shares (columns : List String) (r s : Row) : Prop :=
  ∀ c ∈ columns, value c r = value c s ∧ value c r ≠ .null

end Row

/-- The primary key of a row. -/
def Table.key (t : Table) (r : Row) : List Datum := t.primaryKey.columns.map fun c => r.value c

/-! ## Choosing rows -/

/-- A row meets a condition. Nothing is equal to an empty value, except that a comparison with the
empty value itself asks for emptiness. -/
def Condition.Holds (r : Row) : Condition → Prop
  | .equals c d => r.value c.name = d
  | .among c ds => r.value c.name ≠ .null ∧ r.value c.name ∈ ds

/-- The order of the values of one column: text goes by code points, empty values come last. -/
def Datum.NotAfter : Datum → Datum → Prop
  | .text s, .text s' => s ≤ s'
  | .id i, .id j => i.le j = true
  | .instant i, .instant j => i.universal ≤ j.universal
  | .truth b, .truth b' => b = true → b' = true
  | .status s, .status s' => s.word ≤ s'.word
  | _, .null => True
  | _, _ => False

def SortKey.NotAfter (k : SortKey) (r s : Row) : Prop :=
  if k.descending then (s.value k.column.name).NotAfter (r.value k.column.name)
  else (r.value k.column.name).NotAfter (s.value k.column.name)

/-- Two rows stand in a sort order one after the other. The later keys matter for rows that are
equal by the first. -/
def InOrder : List SortKey → Row → Row → Prop
  | [], _, _ => True
  | k :: ks, r, s => k.NotAfter r s ∧ (k.NotAfter s r → InOrder ks r s)

/-- A list of the rows of a table that meet conditions. -/
structure Lists (d : Contents) (t : Table) (conditions : List Condition) (rows : List Row) :
    Prop where
  nodup : rows.Nodup
  mem : ∀ r, r ∈ rows ↔ d t.name r ∧ ∀ c ∈ conditions, c.Holds r

/-- At most `limit` rows after the first `offset`. -/
def bounded (limit offset : Option Int) (rows : List Row) : List Row :=
  let rest := rows.drop (offset.getD 0).toNat
  match limit with
  | some n => rest.take n.toNat
  | none => rest

/-- What a statement is answered with when it was sent for at most one row, for all, or for its
effect alone. -/
def Mode.answer : Mode → List Row → Answer
  | one, [] => .nothing
  | one, r :: _ => .row r
  | all, rs => .rows rs
  | effect, _ => .nothing

/-! ## Writing rows -/

inductive Write where
  | insert (t : Table) (r : Row)
  /-- A row in the place of the one with the same primary key. -/
  | replace (t : Table) (r : Row)
  | remove (t : Table) (key : List Datum)

namespace Contents

def put (t : Table) (row : Row) (d : Contents) : Contents := fun name r =>
  (name = t.name ∧ r = row) ∨ (d name r ∧ ¬ (name = t.name ∧ t.key r = t.key row))

def remove (t : Table) (key : List Datum) (d : Contents) : Contents := fun name r =>
  d name r ∧ ¬ (name = t.name ∧ t.key r = key)

def write : Write → Contents → Contents
  | .insert t r => put t r
  | .replace t r => put t r
  | .remove t key => remove t key

/-- The contents after some writes, one after the other. -/
def writeAll (ws : List Write) (d : Contents) : Contents := ws.foldl (fun d w => d.write w) d

/-- No two rows of a table share the values of a unique combination of columns. -/
def Distinct (t : Table) (d : Contents) : Prop :=
  ∀ u ∈ t.uniques, ∀ r s, d t.name r → d t.name s → r.Shares u.columns s → r = s

/-- What a row refers to is there. -/
def Refers (t : Table) (r : Row) (d : Contents) : Prop :=
  ∀ ref ∈ t.references, r.value ref.column = .null ∨
    ∃ s, d ref.table s ∧ s.value Schema.id.name = r.value ref.column

end Contents

/-- A row has a value in every column that needs one. -/
def Row.Full (t : Table) (r : Row) : Prop := ∀ c ∈ t.columns, c.required = true → r.value c.name ≠ .null

namespace Write

/-- A write makes a duplicate, given the contents before and after the statement. -/
def Clashes (d after : Contents) : Write → Prop
  | insert t r => (∃ s, d t.name s ∧ t.key s = t.key r) ∨ ¬ after.Distinct t
  | replace t _ => ¬ after.Distinct t
  | remove .. => False

/-- A write leaves a value out that has to be there, or refers to nothing. -/
def Dangles (after : Contents) : Write → Prop
  | insert t r | replace t r => ¬ r.Full t ∨ ¬ after.Refers t r
  | remove .. => False

end Write

/-- A new row with the given values. A column without a default stays empty if it is not given a
value. -/
structure Completes (t : Table) (values : List (Column × Datum)) (row : Row) : Prop where
  columns : row.map Prod.fst = t.columns.map Column.name
  given : ∀ v ∈ values, row.value v.1.name = v.2
  empty : ∀ c ∈ t.columns, c.serverDefault = none → (∀ v ∈ values, v.1.name ≠ c.name) →
    row.value c.name = .null

/-- A row after an update. -/
structure Changes (t : Table) (values : List (Column × Assigned)) (old new : Row) : Prop where
  columns : new.map Prod.fst = t.columns.map Column.name
  given : ∀ c d, (c, .value d) ∈ values → new.value c.name = d
  kept : ∀ c ∈ t.columns, (∀ v ∈ values, v.1.name ≠ c.name) → new.value c.name = old.value c.name
  key : t.key new = t.key old

/-- What a statement answers and writes if no constraint stands against it. -/
inductive Attempts (d : Contents) : Statement → List Row → List Write → Prop where
  | select {t : Table} {cs : List Column} {conditions : List Condition} {order : List SortKey}
      {limit offset : Option Int} {lock : Bool} {rows : List Row}
      (lists : Lists d t conditions rows) (ordered : rows.Pairwise (InOrder order)) :
      Attempts d (.select t cs conditions order limit offset lock)
        ((bounded limit offset rows).map (Row.project cs)) []
  | insert {t : Table} {values : List (Column × Datum)} {returning : Bool} {row : Row}
      (completes : Completes t values row) :
      Attempts d (.insert t values returning) (if returning then [row.project t.columns] else [])
        [.insert t row]
  | update {t : Table} {values : List (Column × Assigned)} {conditions : List Condition}
      {returning : Bool} {changed : List (Row × Row)}
      (lists : Lists d t conditions (changed.map Prod.fst))
      (changes : ∀ c ∈ changed, Changes t values c.1 c.2) :
      Attempts d (.update t values conditions returning)
        (if returning then changed.map fun c => c.2.project t.columns else [])
        (changed.map fun c => .replace t c.2)
  | delete {t : Table} {conditions : List Condition} {rows : List Row}
      (unreferenced : ∀ other ∈ Schema.tables, ∀ ref ∈ other.references, ref.table ≠ t.name)
      (lists : Lists d t conditions rows) :
      Attempts d (.delete t conditions) (rows.map (Row.project t.columns))
        (rows.map fun r => .remove t (t.key r))

/-- What a database can answer to a statement, and what the statement then writes. -/
inductive Executes (d : Contents) (mode : Mode) (st : Statement) : Scripted → List Write → Prop where
  | done {rows : List Row} {ws : List Write} (attempts : Attempts d st rows ws)
      (distinct : ∀ w ∈ ws, ¬ w.Clashes d (d.writeAll ws))
      (sound : ∀ w ∈ ws, ¬ w.Dangles (d.writeAll ws)) : Executes d mode st (.ok (mode.answer rows)) ws
  | duplicate {rows : List Row} {ws : List Write} (attempts : Attempts d st rows ws)
      (clash : ∃ w ∈ ws, w.Clashes d (d.writeAll ws)) (text : String) :
      Executes d mode st (.error (.duplicate text)) []
  | interrupted {rows : List Row} {ws : List Write} (attempts : Attempts d st rows ws)
      (distinct : ∀ w ∈ ws, ¬ w.Clashes d (d.writeAll ws))
      (dangling : ∃ w ∈ ws, w.Dangles (d.writeAll ws)) (text : String) :
      Executes d mode st (.error (.interrupted text)) []

/-- The answers of a script are those of a database to what a connection was asked to do, and the
database has other contents in the end. A rollback goes back to the contents at the start of the
transaction. -/
def Serves (start d : Contents) : List Action → List Scripted → Contents → Prop
  | [], _, after => after = d
  | .send mode st :: rest, script, after => ∃ ws, Executes d mode st (script.headD (.ok .nothing)) ws ∧
      Serves start (d.writeAll ws) rest script.tail after
  | .begin :: rest, script, after => Serves d d rest script after
  | .rollback :: rest, script, after => Serves start start rest script after
  | _ :: rest, script, after => Serves start d rest script after

end ReviewRota.Sql
