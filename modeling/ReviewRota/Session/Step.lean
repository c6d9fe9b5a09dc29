import ReviewRota.Session.Transaction

/-!
# Steps of a session

What can be asked of a session: single calls, requests of clients and of the store, and blocks of
steps that run inside one transaction. A step that fails ends the block that it stands in, unless it
is only attempted.
-/

namespace ReviewRota

/-- Which view of a database a request goes to. -/
inductive Target where
  | committed
  /-- The innermost open transaction of the database. -/
  | transaction
  | held (name : String)

inductive Step where
  | command (database : String) (c : Command)
  | query (database : String) (q : Query)
  | store (database : String) (on : Target) (c : StoreCall)
  | request (database : String) (r : Http.Request)
  | table (database : String) (t : Sql.Table) (r : Sql.TableRequest)
  /-- Save a view of a database under a name. -/
  | hold (database : String) (on : Target) (name : String)
  /-- Show what is committed. -/
  | contents (database : String)
  | fail (f : Failure)
  /-- Steps inside a transaction, which breaks off with a text at the end if there is one. -/
  | transaction (database : String) (steps : List Step) (ending : Option String)
  /-- Steps next to each other: none of them ends the others. -/
  | gather (steps : List Step)
  /-- A step whose failure does not end the block. -/
  | attempt (step : Step)
  /-- A step during which a method of the tables in memory is broken. -/
  | withFault (f : Fault) (step : Step)

instance : Inhabited Step := ⟨.gather []⟩

inductive Answer where
  | outcome (c : Command) (r : c.Result)
  | finding (q : Query) (r : q.Result)
  | reply (c : StoreCall) (r : c.Reply)
  | response (r : Http.Response)
  | table (r : Sql.TableResult)
  | contents (t : Tables)
  | nothing
  | steps (as : List Answer)
  | failed (f : Failure)
  /-- A transaction that failed, with the answers up to then. -/
  | aborted (f : Failure) (as : List Answer)

namespace Answer

/-- The failure that an answer tells of. -/
def failure? : Answer → Option Failure
  | failed f | aborted f _ => some f
  | _ => none

/-- The answer to what either fails or not. -/
def of (f : α → Answer) : Except Failure α → Answer
  | .ok a => f a
  | .error e => failed e

end Answer

namespace Course

/-- The view that a request goes to, if there is one. -/
def view? (name : String) : Target → Course (Option Handle)
  | .committed => do return some (← committed name)
  | .transaction => do return (← get).opened.find? fun h => h.database = name
  | .held key => do return (← get).held.lookup key

end Course

namespace Step

def isAttempt : Step → Bool
  | attempt _ => true
  | _ => false

open Course in
mutual

def run : Step → Course Answer
  | command database c => do return .of (.outcome c) (← Course.command database c)
  | query database q => do return .of (.finding q) (← Course.query database q)
  | store database on c => do
    match ← view? database on with
    | some h => return .of (.reply c) (← ask h c)
    | none => return .failed (.interrupted "no such view")
  | request database r => do return .response (← Http.serveAny (desk database) r)
  | table database t r => do return .of .table (← exchange database (r.exchange t))
  | hold database on name => do
    match ← view? database on with
    | some h =>
      modify fun s => { s with held := (name, h) :: s.held }
      return .nothing
    | none => return .failed (.interrupted "no such view")
  | contents database => do
    match ← Course.database database with
    | .memory v => return .contents v.committed
    | .connected _ => return .nothing
  | fail f => return .failed f
  | transaction database steps ending => do
    let (as, failure) ← inTransaction database (fun r => r.2.isNone) fun _ => do
      let (as, failure) ← runBlock steps
      return (as, failure <|> ending.map Failure.interrupted)
    match failure with
    | none => return .steps as
    | some f => return .aborted f as
  | gather steps => do return .steps (← runEach steps)
  | attempt step => run step
  | withFault f step => do
    modify fun s => { s with faults := f :: s.faults }
    let a ← run step
    modify fun s => { s with faults := s.faults.drop 1 }
    return a

/-- Take steps up to the first that fails without being an attempt. -/
def runBlock : List Step → Course (List Answer × Option Failure)
  | [] => return ([], none)
  | step :: rest => do
    let a ← run step
    match a.failure?, step.isAttempt with
    | some f, false => return ([a], some f)
    | _, _ =>
      let (as, failure) ← runBlock rest
      return (a :: as, failure)

/-- Take steps whatever becomes of them. -/
def runEach : List Step → Course (List Answer)
  | [] => return []
  | step :: rest => do
    let a ← run step
    return a :: (← runEach rest)

end

end Step

end ReviewRota
