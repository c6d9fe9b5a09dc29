import ReviewRota.Sql.Datum
import ReviewRota.Sql.Schema

/-!
# Statements

The statements that the service sends, as values, and their text. Values stand in the text as named
parameters: a new value of a column bears the name of the column, and a value that a column is
compared with bears that name and the number of the comparison among those of the column.
-/

namespace ReviewRota.Sql

inductive Condition where
  | equals (column : Column) (value : Datum)
  | among (column : Column) (values : List Datum)

/-- A column of a sort order. -/
structure SortKey where
  column : Column
  descending : Bool := false

/-- What a column is set to. -/
inductive Assigned where
  | value (d : Datum)
  /-- The present time of the database. -/
  | now

inductive Statement where
  | select (table : Table) (columns : List Column) (conditions : List Condition) (order : List SortKey)
      (limit offset : Option Int) (lock : Bool)
  | insert (table : Table) (values : List (Column × Datum)) (returning : Bool)
  | update (table : Table) (values : List (Column × Assigned)) (conditions : List Condition)
      (returning : Bool)
  | delete (table : Table) (conditions : List Condition)

abbrev Parameter := String × Datum

/-- How many comparisons a column name has seen so far. -/
abbrev Counts := List (String × Nat)

namespace Counts

/-- The number of the next comparison of a name, counted from one, and the counts after it. -/
def next (name : String) (c : Counts) : Nat × Counts :=
  let n := (c.lookup name).getD 0 + 1
  (n, (name, n) :: c)

end Counts

/-- A part of a statement's text with its parameters, which depends on the counts so far. -/
abbrev Render := StateM (Counts × List Parameter)

namespace Render

/-- The place of a parameter in the text. -/
def placeholder (name : String) (cast? : Option String) : String :=
  "%(" ++ name ++ ")s" ++ (cast?.map ("::" ++ ·)).getD ""

def parameter (name : String) (cast? : Option String) (d : Datum) : Render String :=
  modifyGet fun (counts, params) => (placeholder name cast?, counts, params ++ [(name, d)])

/-- The number of the next comparison of a name. -/
def nextOf (name : String) : Render Nat :=
  modifyGet fun (counts, params) =>
    let (n, counts) := counts.next name
    (n, counts, params)

/-- A parameter that bears a name and its next number. -/
def numbered (name : String) (cast? : Option String) (d : Datum) : Render String := do
  let n ← nextOf name
  parameter (name ++ "_" ++ toString n) cast? d

end Render

open Render

/-- A column with its table in front. -/
def Column.qualified (t : Table) (c : Column) : String := t.name ++ "." ++ c.name

/-- The text of a condition. A comparison with nothing or with a truth value needs no parameter.
Membership in an empty list is never true. -/
def Condition.render (t : Table) : Condition → Render String
  | .equals c .null => pure (c.qualified t ++ " IS NULL")
  | .equals c (.truth b) => pure (c.qualified t ++ " = " ++ if b then "true" else "false")
  | .equals c d => do
    let p ← numbered c.name c.kind.cast? d
    pure (c.qualified t ++ " = " ++ p)
  | .among c [] => do
    let _ ← nextOf c.name
    pure (c.qualified t ++ " IN (NULL) AND (1 != 1)")
  | .among c ds => do
    let isNull : Datum → Bool
      | .null => true
      | _ => false
    let parts ←
      if ds.any isNull then
        ds.mapM fun d => if isNull d then pure "NULL" else numbered c.name c.kind.cast? d
      else do
        let n ← nextOf c.name
        ds.zipIdx.mapM fun (d, i) =>
          parameter (c.name ++ "_" ++ toString n ++ "_" ++ toString (i + 1)) c.kind.cast? d
    pure (c.qualified t ++ " IN (" ++ String.intercalate ", " parts ++ ")")

/-- The conditions of a statement, joined. -/
def renderConditions (t : Table) (cs : List Condition) : Render String := do
  if cs.isEmpty then pure ""
  else
    let parts ← cs.mapM (Condition.render t)
    pure (" WHERE " ++ String.intercalate " AND " parts)

/-- A column of a sort order. -/
def SortKey.text (t : Table) (k : SortKey) : String :=
  k.column.qualified t ++ if k.descending then " DESC" else " ASC"

def renderBounds (limit offset : Option Int) : Render String := do
  let number (n : Int) : Render String := numbered "param" (some "INTEGER") (.other (.int n))
  match limit, offset with
  | none, none => pure ""
  | some l, none => do
    let l ← number l
    pure (" LIMIT " ++ l)
  | none, some o => do
    let o ← number o
    pure (" LIMIT ALL OFFSET " ++ o)
  | some l, some o => do
    let l ← number l
    let o ← number o
    pure (" LIMIT " ++ l ++ " OFFSET " ++ o)

/-- The columns that a statement returns, after some others. A column that stands among them more than
once gets a name of its own from the second time on. -/
def columnTexts (t : Table) (earlier : List Column) : List Column → List String
  | [] => []
  | c :: cs =>
    let n := earlier.count c
    (if n = 0 then c.qualified t else c.qualified t ++ " AS " ++ c.name ++ "__" ++ toString n) ::
      columnTexts t (c :: earlier) cs

/-- The columns that a statement returns. -/
def columnsText (t : Table) (cs : List Column) : String := String.intercalate ", " (columnTexts t [] cs)

/-- The end of a statement that returns the rows it has changed. -/
def returningText (t : Table) (returning : Bool) : String :=
  if returning then " RETURNING " ++ columnsText t t.columns else ""

/-- A column with its new value. -/
def renderAssigned : Column × Assigned → Render String
  | (c, .value d) => do
    let p ← parameter c.name c.kind.cast? d
    pure (c.name ++ "=" ++ p)
  | (c, .now) => pure (c.name ++ "=now()")

def Statement.renderText : Statement → Render String
  | .select t columns conditions order limit offset lock => do
    let sorted := if order.isEmpty then "" else
      " ORDER BY " ++ String.intercalate ", " (order.map (SortKey.text t))
    let filter ← renderConditions t conditions
    let bounds ← renderBounds limit offset
    pure ("SELECT " ++ columnsText t columns ++ " FROM " ++ t.name ++ filter ++ sorted ++ bounds ++
      if lock then " FOR UPDATE" else "")
  | .insert t values returning => do
    if values.isEmpty then pure ("INSERT INTO " ++ t.name ++ " DEFAULT VALUES" ++ returningText t returning)
    else
      let parts ← values.mapM fun (c, d) => parameter c.name c.kind.cast? d
      pure ("INSERT INTO " ++ t.name ++ " " ++ parenthesised (values.map fun (c, _) => c.name) ++ " VALUES " ++
        parenthesised parts ++ returningText t returning)
  | .update t values conditions returning => do
    let parts ← values.mapM renderAssigned
    let filter ← renderConditions t conditions
    let assigned := if parts.isEmpty then "" else " " ++ String.intercalate ", " parts
    pure ("UPDATE " ++ t.name ++ " SET" ++ assigned ++ filter ++ returningText t returning)
  | .delete t conditions => do
    let filter ← renderConditions t conditions
    pure ("DELETE FROM " ++ t.name ++ filter ++ returningText t true)

/-- The text of a statement and its parameters. -/
def Statement.render (s : Statement) : String × List Parameter :=
  let (text, _, params) := s.renderText ([], [])
  (text, params)

def parametersJson (ps : List Parameter) : Json := .object (ps.map fun (name, d) => (name, d.toJson))

end ReviewRota.Sql
