import ReviewRota.Failure
import ReviewRota.Sql.Statement

/-!
# Building statements

Statements over any table from names: filters by key, a sort order by name, and values by column. A
key of a filter is the name of a column, or that name followed by `__in`, which asks for membership;
a key that is neither is ignored. Names of columns to return and to sort by have to exist, and so
have the columns that get values.
-/

namespace ReviewRota.Sql

inductive FilterValue where
  | one (d : Datum)
  | many (ds : List Datum)

namespace FilterValue

/-- The value that a document gives to a filter. -/
def ofJson : Json → FilterValue
  | .list xs => many (xs.map Datum.ofJson)
  | j => one (.ofJson j)

def single : FilterValue → Datum
  | one d => d
  | many ds => .other (.list (ds.map Datum.toJson))

/-- A value as a message shows it. -/
def shown : Datum → String
  | .null => "None"
  | .truth b => if b then "True" else "False"
  | .text s => Text.quoted s
  | .other (.number (.int n)) => toString n
  | d => (d.toJson).text?.getD "..."

end FilterValue

inductive Comparison where
  | membership
  | equality
deriving DecidableEq

/-- A key without a suffix: the empty text if the key does not end so, the key itself if the suffix
is empty. -/
def withoutSuffix (key suffix : String) : String :=
  let ks := key.toList
  let ss := suffix.toList
  if ss.isEmpty then key
  else if ss.isSuffixOf ks then String.ofList (ks.take (ks.length - ss.length))
  else ""

/-- The suffixes of keys in the order in which they are tried. -/
def suffixes : List (String × Comparison) := [("__in", .membership), ("", .equality)]

/-- The column and the comparison that a key asks for: those of the first suffix whose rest is the
name of a column. -/
def keyMeaning? (t : Table) (key : String) : Option (Column × Comparison) :=
  suffixes.findSome? fun (suffix, comparison) =>
    let name := withoutSuffix key suffix
    if name = "" then none else (t.column? name).map fun c => (c, comparison)

/-- The condition of a filter, if its key asks for one. -/
def condition? (t : Table) (key : String) (v : FilterValue) : Except Failure (Option Condition) :=
  match keyMeaning? t key, v with
  | none, _ => .ok none
  | some (c, .equality), v => .ok (some (.equals c v.single))
  | some (c, .membership), .many ds => .ok (some (.among c ds))
  | some (_, .membership), .one d => .error (.notASet (FilterValue.shown d))

/-- The conditions of filters, in order. -/
def conditions (t : Table) (filters : List (String × FilterValue)) : Except Failure (List Condition) := do
  let cs ← filters.mapM fun (key, v) => condition? t key v
  return cs.filterMap (fun c => c)

/-- A column that has to exist. -/
def columnNamed (t : Table) (name : String) : Except Failure Column :=
  match t.column? name with
  | some c => .ok c
  | none => .error (.unknownColumn name)

/-- A column to sort by: a hyphen in front turns the order round. -/
def sortKey (t : Table) (key : String) : Except Failure SortKey := do
  match key.toList with
  | '-' :: rest => return ⟨← columnNamed t (String.ofList rest), true⟩
  | _ => return ⟨← columnNamed t key, false⟩

structure Lookup where
  filters : List (String × FilterValue) := []
  orderBy : List String := []
  /-- The columns to return; all of them if there are none here. -/
  columns : List String := []
  lock : Bool := false
  limit : Option Int := none
  offset : Option Int := none

def Lookup.statement (t : Table) (s : Lookup) : Except Failure Statement := do
  let columns ← if s.columns.isEmpty then .ok t.columns else s.columns.mapM (columnNamed t)
  let filter ← conditions t s.filters
  let order ← s.orderBy.mapM (sortKey t)
  return .select t columns filter order s.limit s.offset s.lock

abbrev Values := List (String × Datum)

/-- The names that are no columns of a table. -/
def unused (t : Table) (vs : Values) : List String :=
  (vs.map Prod.fst).filter fun name => (t.column? name).isNone

/-- The statement that inserts a row. The columns stand in the order of the table; a column that
always gets a value is there even when none is given. -/
def insertion (t : Table) (vs : Values) (returning : Bool) : Except Failure Statement :=
  match unused t vs with
  | [] =>
    .ok (.insert t (t.columns.filterMap fun c =>
      match vs.lookup c.name with
      | some d => some (c, d)
      | none => if c.always then some (c, .null) else none) returning)
  | names => .error (.unusedColumns names)

/-- The statement that updates rows. The columns stand in the order of the table; a stamped column
gets the present time unless it is given a value. -/
def updating (t : Table) (vs : Values) (filters : List (String × FilterValue)) (returning : Bool) :
    Except Failure Statement := do
  let filter ← conditions t filters
  match unused t vs with
  | [] =>
    return .update t (t.columns.filterMap fun c =>
      match vs.lookup c.name with
      | some d => some (c, .value d)
      | none => if c.stamped then some (c, .now) else none) filter returning
  | names => .error (.unusedColumns names)

def deletion (t : Table) (filters : List (String × FilterValue)) : Except Failure Statement := do
  return .delete t (← conditions t filters)

end ReviewRota.Sql
