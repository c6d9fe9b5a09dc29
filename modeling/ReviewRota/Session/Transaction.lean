import ReviewRota.Http.Serve
import ReviewRota.Session.State
import ReviewRota.Sql.Calls

/-!
# Transactions and calls

How a session carries out requests to the store, transactions and the calls of the service. A
transaction on a database whose transaction is the innermost open one joins that one; otherwise it
is a transaction of its own, which waits until the tables are free. Tables that are kept busy by a
transaction further out never become free, so the wait has no end.
-/

namespace ReviewRota.Course

/-- Enter the methods of a request to the tables in memory. -/
def enter (methods : List (StoreName × Method)) : Course (Option Failure) := modifyGet fun s =>
  let (f, faults) := Fault.enterAll methods s.faults
  (f, { s with faults })

/-- The reply of tables in memory to a request. -/
def askTables (h : Handle) (v : VersionedTables) (q : StoreCall) : Course (Except Failure q.Reply) := do
  match ← enter q.entered with
  | some f => return .error f
  | none => modifyGet fun s =>
    let (r, w) := q.run ⟨v.version h.version, s.supply⟩
    (r, { s with supply := w.supply }.putDatabase h.database (.memory (v.write h.version w.tables)))

def askConnection (name : String) (q : Sql.Ask) : Course (Except Failure q.Reply) := do
  match ← database name with
  | .memory _ => return .error (.interrupted "the tables are in memory")
  | .connected c => modifyGet fun s =>
    let (r, c, supply) := Sql.Connection.answer q (c, s.supply)
    (r, { s with supply }.putDatabase name (.connected c))

/-- Hold an exchange over the connection of a database. -/
def exchange (name : String) (e : Sql.Exchange α) : Course (Except Failure α) :=
  e.hold (askConnection name) report

/-- The reply of a database to a request to the store. -/
def ask (h : Handle) (q : StoreCall) : Course (Except Failure q.Reply) := do
  match ← database h.database with
  | .memory v => askTables h v q
  | .connected _ => exchange h.database (Sql.perform q)

/-- Hold the dialogue of a call with a view of a database. -/
def converse (h : Handle) (p : Program α) : Course (Except Failure α) := p.hold (ask h) report

/-- Go on inside a transaction that is open while it lasts. -/
def within (h : Handle) (body : Handle → Course β) : Course β := do
  let before := (← get).opened
  modify fun s => { s with opened := h :: before }
  let r ← body h
  modify fun s => { s with opened := before }
  return r

def newTransaction (name : String) (well : β → Bool) (body : Handle → Course β) : Course β := do
  match ← database name with
  | .memory v =>
    if v.busy then blocked
    else
      let (version, v) := v.start
      change name fun _ => .memory v
      let r ← within ⟨name, version⟩ body
      change name (Database.onTables (VersionedTables.finish version (well r)))
      return r
  | .connected _ =>
    change name (Database.onConnection fun c => (c.note .acquire).note .begin)
    let r ← within ⟨name, 0⟩ body
    change name (Database.onConnection fun c =>
      (c.note (if well r then .commit else .rollback)).note .release)
    return r

/-- A transaction, which joins the innermost open one if that is of the same database. -/
def inTransaction (name : String) (well : β → Bool) (body : Handle → Course β) : Course β := do
  match (← get).opened with
  | h :: _ => if h.database = name then body h else newTransaction name well body
  | [] => newTransaction name well body

/-- A command: its transaction, and then its event. -/
def command (name : String) (c : Command) : Course (Except Failure c.Result) := do
  match ← inTransaction name Except.isOk fun h => converse h c.program with
  | .error f => return .error f
  | .ok r =>
    match c.report r with
    | .error f => return .error f
    | .ok e =>
      report e
      return .ok r

/-- A query, which sees what is committed even inside a transaction. -/
def query (name : String) (q : Query) : Course (Except Failure q.Result) := do
  converse (← committed name) q.program

/-- The calls of the service on one database. -/
def desk (name : String) : Http.Desk Course := ⟨command name, query name, report⟩

end ReviewRota.Course
