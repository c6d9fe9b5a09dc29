import ReviewRota.Sql.Builder
import ReviewRota.Sql.Exchange
import ReviewRota.Supply

/-!
# Connections

A connection whose answers are laid down beforehand: every statement takes the next one, and finds
nothing once they are used up. The connection keeps a trace of what it was asked to do.
-/

namespace ReviewRota.Sql

/-- What a connection was asked to do. -/
inductive Action where
  | connect
  | disconnect
  | acquire
  | release
  | begin
  | commit
  | rollback
  | send (mode : Mode) (s : Statement)
  /-- A statement that creates a table or an index. -/
  | define (text : String)

/-- An answer that is laid down: one of the database, or a failure. -/
abbrev Scripted := Except Failure Answer

/-- A connection with the answers to come and its trace, last action first. -/
structure Connection where
  script : List Scripted := []
  trace : List Action := []
deriving Inhabited

namespace Connection

def note (a : Action) (c : Connection) : Connection := { c with trace := a :: c.trace }

def send (mode : Mode) (s : Statement) (c : Connection) : Scripted × Connection :=
  let c := c.note (.send mode s)
  match c.script with
  | [] => (.ok .nothing, c)
  | a :: rest => (a, { c with script := rest })

/-- Answer whatever a call asks for. -/
def answer : (q : Ask) → Connection × Supply → Except Failure q.Reply × Connection × Supply
  | .send mode s, (c, supply) =>
    let (a, c) := c.send mode s
    (a, c, supply)
  | .clock, (c, supply) =>
    let (now, supply) := supply.readClock
    (.ok now, c, supply)
  | .freshId, (c, supply) =>
    let (id, supply) := supply.freshId
    (.ok id, c, supply)

end Connection

/-- Starting and stopping: a connection, the creation of what is not there yet, and the end of the
connection. -/
def lifespan : List Action := .connect :: Schema.creation.map .define ++ [.disconnect]

/-- A request to a single table by names of columns. -/
inductive TableRequest where
  /-- A statement that is built and not sent. -/
  | prepare (s : Lookup)
  | first (s : Lookup)
  | all (s : Lookup)
  | create (values : Values) (returning : Bool)
  | update (values : Values) (filters : List (String × FilterValue)) (returning : Bool)
  | delete (filters : List (String × FilterValue))

/-- What a request to a single table comes to. -/
inductive TableResult where
  | prepared (s : Statement)
  | document (j : Json)

/-- The exchange of a request to a single table. -/
def TableRequest.exchange (t : Table) : TableRequest → Exchange TableResult
  | .prepare s => do return .prepared (← Dialogue.ofExcept ({ s with limit := none, offset := none }.statement t))
  | .first s => do
    let statement ← Dialogue.ofExcept ({ s with limit := some 1, offset := none }.statement t)
    return .document (← Exchange.send .one statement).oneJson
  | .all s => do
    let statement ← Dialogue.ofExcept (s.statement t)
    return .document (← Exchange.send .all statement).allJson
  | .create values returning => do
    let statement ← Dialogue.ofExcept (insertion t values returning)
    if returning then return .document (← Exchange.write .one statement).oneJson
    else
      let _ ← Exchange.write .effect statement
      return .document .null
  | .update values filters returning => do
    let statement ← Dialogue.ofExcept (updating t values filters returning)
    if returning then return .document (← Exchange.write .one statement).oneJson
    else return .document (← Exchange.write .effect statement).rawJson
  | .delete filters => do
    let statement ← Dialogue.ofExcept (deletion t filters)
    return .document (← Exchange.send .one statement).oneJson

end ReviewRota.Sql
