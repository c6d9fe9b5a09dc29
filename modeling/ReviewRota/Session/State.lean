import ReviewRota.Session.Database

/-!
# The state of a session

A session holds databases by name, each made when it is used first. Clock and identifiers are
shared by all of them. The open transactions form a stack: a call that finds a transaction of its
own database on top joins it and works on the version of that transaction.
-/

namespace ReviewRota

/-- A view of a database: the version of the tables that calls see and change. A connection has no
versions. -/
structure Handle where
  database : String
  version : Nat
deriving DecidableEq

/-- A method of the tables in memory that breaks after a number of entries. -/
structure Fault where
  method : StoreName × Method
  failure : Failure
  remaining : Nat

namespace Fault

/-- Enter a method: the first fault of that method with no entries left breaks it, and the ones
before it have one entry less. -/
def enter (method : StoreName × Method) : List Fault → Option Failure × List Fault
  | [] => (none, [])
  | f :: rest =>
    if f.method = method then
      match f.remaining with
      | 0 => (some f.failure, f :: rest)
      | n + 1 =>
        let (r, rest) := enter method rest
        (r, { f with remaining := n } :: rest)
    else
      let (r, rest) := enter method rest
      (r, f :: rest)

/-- Enter methods one after the other, up to the first that breaks. -/
def enterAll : List (StoreName × Method) → List Fault → Option Failure × List Fault
  | [], fs => (none, fs)
  | m :: ms, fs =>
    match enter m fs with
    | (some f, fs) => (some f, fs)
    | (none, fs) => enterAll ms fs

/-- Without faults nothing breaks. -/
@[simp] theorem enterAll_nil (ms : List (StoreName × Method)) : enterAll ms [] = (none, []) := by
  induction ms with
  | nil => rfl
  | cons m ms ih => simpa [enterAll, enter] using ih

end Fault

structure Session where
  /-- New databases are tables in memory. -/
  inMemory : Bool
  supply : Supply
  /-- The databases by name, in the order of their first use. -/
  databases : List (String × Database) := []
  /-- Views that were saved under a name. -/
  held : List (String × Handle) := []
  /-- The open transactions, innermost first. -/
  opened : List Handle := []
  /-- The faults in force, innermost first. -/
  faults : List Fault := []
  /-- The events that were reported, in order. -/
  events : List Event := []

/-- What happens in a session. There is no result when something waits for ever. -/
abbrev Course := StateT Session Option

namespace Session

/-- A database that nobody has used yet. -/
def newDatabase (s : Session) : Database := if s.inMemory then .memory {} else .connected {}

def database (name : String) (s : Session) : Database := (s.databases.lookup name).getD s.newDatabase

/-- The entries with a database put under a name. -/
def putIn (name : String) (d : Database) : List (String × Database) → List (String × Database)
  | [] => [(name, d)]
  | (key, old) :: rest => if key = name then (key, d) :: rest else (key, old) :: putIn name d rest

/-- The session with a database put under a name. -/
def putDatabase (name : String) (d : Database) (s : Session) : Session :=
  { s with databases := putIn name d s.databases }

theorem lookup_putIn (name other : String) (d : Database) (ds : List (String × Database)) :
    (putIn name d ds).lookup other = if other = name then some d else ds.lookup other := by
  induction ds with
  | nil =>
    rw [putIn, List.lookup_cons, List.lookup_nil]
    by_cases h : other = name
    · simp [h]
    · rw [beq_false_of_ne h, if_neg h]
  | cons e es ih =>
    obtain ⟨key, old⟩ := e
    by_cases hk : key = name
    · rw [putIn, if_pos hk, List.lookup_cons, List.lookup_cons, hk]
      by_cases h : other = name
      · simp [h]
      · rw [beq_false_of_ne h, if_neg h]
    · rw [putIn, if_neg hk, List.lookup_cons, List.lookup_cons, ih]
      by_cases h : other = key
      · have : other ≠ name := fun hn => hk (h.symm.trans hn)
        rw [if_neg this, if_neg this]
      · rw [beq_false_of_ne h]

/-- A database is found where it was put, and the others are as they were. -/
@[simp] theorem database_putDatabase (name other : String) (d : Database) (s : Session) :
    (s.putDatabase name d).database other = if other = name then d else s.database other := by
  simp only [database, putDatabase, newDatabase, lookup_putIn]
  split <;> rfl

end Session

namespace Course

/-- Wait for something that never happens. -/
def blocked : Course α := failure

def report (e : Event) : Course Unit := modify fun s => { s with events := s.events ++ [e] }

/-- Use a database, which is made if there is none of that name. -/
def database (name : String) : Course Database := modifyGet fun s =>
  let d := s.database name
  (d, s.putDatabase name d)

def change (name : String) (f : Database → Database) : Course Unit :=
  modify fun s => s.putDatabase name (f (s.database name))

/-- The view of what is committed. -/
def committed (name : String) : Course Handle := do
  match ← database name with
  | .memory v => return ⟨name, v.current⟩
  | .connected _ => return ⟨name, 0⟩

end Course

end ReviewRota
