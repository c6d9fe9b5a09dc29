import ReviewRota.Sql.Exchange
import ReviewRota.Store

/-!
# The store in a database

How each request to the store is carried out by statements. Uniqueness and references are left to
the constraints of the tables; absence shows in an answer without a row. A merge updates only a row
that is still open, and looks the row up when it has updated none.
-/

namespace ReviewRota.Sql

open Exchange

/-- A selection of whole rows that meet conditions. -/
def selectRows (t : Table) (conditions : List Condition) (order : List SortKey) : Statement :=
  .select t t.columns conditions order none none false

/-- A selection of one row, locked if it is to be changed. -/
def selectOne (t : Table) (conditions : List Condition) (lock : Bool) : Statement :=
  .select t t.columns conditions [] (some 1) none lock

/-- New values for columns of a table: the columns stand in the order of the table and stamped
columns get the present time. -/
def changes (t : Table) (values : List (Column × Datum)) : List (Column × Assigned) :=
  t.columns.filterMap fun c =>
    match values.find? fun v => v.1.name = c.name with
    | some (_, d) => some (c, .value d)
    | none => if c.stamped then some (c, .now) else none

/-- An update of the row of an identifier. -/
def updateById (t : Table) (id : Identifier) (values : List (Column × Datum)) : Statement :=
  .update t (changes t values) [.equals Schema.id (.id id)] true

/-- The value of a column in a row that has to have it, as it stands there, to be put into a set. -/
def cellIn (column : Column) (r : Row) : Exchange Cell :=
  match r.find? column.name with
  | none => .fail (.unknownColumn column.name)
  | some d =>
    match d.cell.unfit? with
    | some type => .fail (.noElement type)
    | none => .done d.cell

/-- The set of the values of one column of the pairs that meet a condition. -/
def pairColumn (column : Column) (condition : Condition) : Exchange (List Cell) := do
  let a ← send .all (.select Schema.reviewers [column] [condition] [] none none false)
  let cells ← Dialogue.each (cellIn column) a.allRows
  return Cell.setOf cells

def findPullRequest (id : Identifier) (lock : Bool) : Exchange PullRequest := do
  entity Row.pullRequest (.about .notFound id)
    (← send .one (selectOne Schema.pullRequests [.equals Schema.id (.id id)] lock))

/-- The statements of a request to the store. -/
def perform : (c : StoreCall) → Exchange c.Reply
  | .createTeam name => do
    let id ← freshId
    entity Row.team (.plain .notFound)
      (← write .one (.insert Schema.teams [(Schema.id, .id id), (Schema.name, .text name)] true))
  | .teamNamed name => do
    entity Row.team (.named .notFound name)
      (← send .one (selectOne Schema.teams [.equals Schema.name (.text name)] false))
  | .team id => do
    entity Row.team (.about .notFound id)
      (← send .one (selectOne Schema.teams [.equals Schema.id (.id id)] false))
  | .createUser username isActive teamId id? => do
    let id ← match id? with
      | some id => pure id
      | none => freshId
    entity Row.user (.plain .notFound)
      (← write .one (.insert Schema.users [(Schema.id, .id id), (Schema.username, .text username),
        (Schema.isActive, .truth isActive), (Schema.teamId, .id teamId)] true))
  | .user id => do
    entity Row.user (.about .notFound id)
      (← send .one (selectOne Schema.users [.equals Schema.id (.id id)] false))
  | .setActive id isActive => do
    entity Row.user (.about .notFound id)
      (← write .one (updateById Schema.users id [(Schema.isActive, .truth isActive)]))
  | .usersOfTeam teamId => do
    entities Row.user
      (← send .all (selectRows Schema.users [.equals Schema.teamId (.id teamId)] [⟨Schema.username, false⟩]))
  | .updateUser user => do
    entity Row.user (.about .notFound user.id)
      (← write .one (updateById Schema.users user.id [(Schema.username, .text user.username),
        (Schema.isActive, .truth user.isActive), (Schema.teamId, .id user.teamId)]))
  | .createPullRequest id name authorId => do
    let now ← clock
    entity Row.pullRequest (.plain .notFound)
      (← write .one (.insert Schema.pullRequests [(Schema.id, .id id), (Schema.name, .text name),
        (Schema.authorId, .id authorId), (Schema.status, .status .opened), (Schema.createdAt, .instant now)]
        true))
  | .pullRequest id lock => findPullRequest id lock
  | .pullRequests ids => do
    if ids.isEmpty then return []
    else
      entities Row.pullRequest
        (← send .all (selectRows Schema.pullRequests [.among Schema.id (ids.map .ofCell)] []))
  | .setMerged id => do
    let now ← clock
    let a ← write .one (.update Schema.pullRequests
      (changes Schema.pullRequests [(Schema.status, .status .merged), (Schema.mergedAt, .instant now)])
      [.equals Schema.id (.id id), .equals Schema.status (.status .opened)] true)
    match ← Dialogue.ofExcept a.row? with
    | some r => checked r.pullRequest
    | none => findPullRequest id false
  | .assign pullRequest user => do
    let _ ← write .effect (.insert Schema.reviewers
      [(Schema.pullRequestId, .id pullRequest), (Schema.userId, .id user)] false)
    return ()
  | .unassign pullRequest user => do
    let a ← send .one (.delete Schema.reviewers
      [.equals Schema.pullRequestId (.id pullRequest), .equals Schema.userId (.id user)])
    match ← Dialogue.ofExcept a.row? with
    | some _ => return ()
    | none => .fail (.worded .notFound "reviewer assignment not found" (.entity user))
  | .reviewersOf pullRequest =>
    pairColumn Schema.userId (.equals Schema.pullRequestId (.id pullRequest))
  | .reviewedBy user => pairColumn Schema.pullRequestId (.equals Schema.userId (.id user))

end ReviewRota.Sql
