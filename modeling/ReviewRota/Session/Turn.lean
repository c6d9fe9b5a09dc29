import ReviewRota.Session.Step

/-!
# Turns of a session

A session goes in turns. Each turn is a step with the answers that the connection of its database
will give; what was left of earlier answers is forgotten. A turn leaves a record of its answer, of
the events reported meanwhile and of what the connections were asked to do.
-/

namespace ReviewRota

/-- A step at the top level of a session. -/
structure Turn where
  database : String
  step : Step
  /-- The answers of the connection, in order. -/
  script : List Sql.Scripted := []

structure Record where
  answer : Answer
  events : List Event
  /-- What connections were asked to do, in the order of the first use of their databases. -/
  trace : List Sql.Action

namespace Session

/-- The session at the start of a turn. -/
def prepare (t : Turn) (s : Session) : Session :=
  let s := s.putDatabase t.database (s.database t.database)
  { s with
    events := []
    databases := s.databases.map fun (name, d) =>
      (name, d.onConnection fun _ => ⟨if name = t.database then t.script else [], []⟩) }

/-- The record at the end of a turn. -/
def record (a : Answer) (s : Session) : Record :=
  ⟨a, s.events, s.databases.flatMap fun (_, d) => d.trace⟩

/-- The committed contents of all databases in memory, in the order of their first use. -/
def contents (s : Session) : List (String × Tables) :=
  s.databases.filterMap fun (name, d) => d.committed?.map fun t => (name, t)

end Session

def Turn.take (t : Turn) : Course Record := do
  modify (Session.prepare t)
  let a ← t.step.run
  return (← get).record a

/-- Take turns one after the other. -/
def Turn.takeAll : List Turn → Course (List Record)
  | [] => return []
  | t :: rest => do
    let r ← t.take
    return r :: (← takeAll rest)

end ReviewRota
