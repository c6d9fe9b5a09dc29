import ReviewRota.Sql.Connection
import ReviewRota.Tables

/-!
# Databases of a session

What a transaction works on. Tables in memory are kept in versions: a transaction writes to a new
version, a copy of the committed one, and the new version is committed when the transaction ends
well. Only one transaction at a time works on such tables. The other kind of database is reached
over a connection, which takes care of transactions itself.
-/

namespace ReviewRota

structure VersionedTables where
  /-- The versions, from the oldest on. -/
  versions : List Tables := [.empty]
  /-- The number of the committed version. -/
  current : Nat := 0
  /-- A transaction is under way. -/
  busy : Bool := false
deriving Inhabited

namespace VersionedTables

def version (n : Nat) (v : VersionedTables) : Tables := (v.versions[n]?).getD .empty

def committed (v : VersionedTables) : Tables := v.version v.current

/-- Replace the tables of a version. -/
def write (n : Nat) (t : Tables) (v : VersionedTables) : VersionedTables :=
  { v with versions := v.versions.set n t }

/-- Start a transaction; its version is a copy of the committed one. -/
def start (v : VersionedTables) : Nat × VersionedTables :=
  (v.versions.length, { v with versions := v.versions ++ [v.committed], busy := true })

/-- End the transaction that works on a version, which is committed if all went well. -/
def finish (n : Nat) (well : Bool) (v : VersionedTables) : VersionedTables :=
  { v with current := if well then n else v.current, busy := false }

/-- A transaction starts with the committed tables. -/
theorem version_start (v : VersionedTables) : v.start.2.version v.start.1 = v.committed := by
  simp [start, version]

@[simp] theorem finish_version (n k : Nat) (well : Bool) (v : VersionedTables) :
    (v.finish n well).version k = v.version k := rfl

/-- A transaction that does not end well leaves the committed version as it is. -/
theorem committed_finish_false (n : Nat) (v : VersionedTables) :
    (v.finish n false).committed = v.committed := rfl

theorem committed_finish_true (n : Nat) (v : VersionedTables) :
    (v.finish n true).committed = v.version n := rfl

/-- Writing to a version leaves the others alone. -/
theorem version_write_of_ne {n k : Nat} (h : n ≠ k) (t : Tables) (v : VersionedTables) :
    (v.write n t).version k = v.version k := by
  simp [write, version, h]

theorem version_write_self {n : Nat} (v : VersionedTables) (h : n < v.versions.length) (t : Tables) :
    (v.write n t).version n = t := by
  simp [write, version, h]

end VersionedTables

inductive Database where
  | memory (v : VersionedTables)
  | connected (c : Sql.Connection)

namespace Database

/-- The committed tables of a database in memory. -/
def committed? : Database → Option Tables
  | memory v => some v.committed
  | connected _ => none

def onTables (f : VersionedTables → VersionedTables) : Database → Database
  | memory v => memory (f v)
  | connected c => connected c

def onConnection (f : Sql.Connection → Sql.Connection) : Database → Database
  | memory v => memory v
  | connected c => connected (f c)

/-- What a connection was asked to do, in order. -/
def trace : Database → List Sql.Action
  | memory _ => []
  | connected c => c.trace.reverse

end Database

end ReviewRota
