import ReviewRota.Ledger
import ReviewRota.Store
import ReviewRota.Supply

/-!
# Tables in memory

The contents of the store as tables, and what each request does to them. The tables check what a
request depends on before they change anything, so a refused request leaves them as they were.
-/

namespace ReviewRota

/-- The pairs of a pull request and a reviewer, each of them once. -/
structure Pairs where
  list : List (Identifier × Identifier)
  distinct : list.Nodup

namespace Pairs

def empty : Pairs := ⟨[], .nil⟩

instance : Inhabited Pairs := ⟨empty⟩

instance : Membership (Identifier × Identifier) Pairs := ⟨fun ps p => p ∈ ps.list⟩

instance (p : Identifier × Identifier) (ps : Pairs) : Decidable (p ∈ ps) :=
  inferInstanceAs (Decidable (p ∈ ps.list))

/-- The pairs with one more, unless it is there already. -/
def insert (p : Identifier × Identifier) (ps : Pairs) : Pairs :=
  if h : p ∈ ps.list then ps
  else ⟨ps.list ++ [p], by
    rw [List.nodup_append]
    exact ⟨ps.distinct, List.pairwise_singleton .., fun a ha b hb =>
      by rw [List.mem_singleton] at hb; exact fun he => h (hb ▸ he ▸ ha)⟩⟩

/-- The pairs without one of them. -/
def erase (p : Identifier × Identifier) (ps : Pairs) : Pairs :=
  ⟨ps.list.filter (· ≠ p), ps.distinct.filter _⟩

/-- The set of the reviewers of a pull request. -/
def reviewersOf (pullRequest : Identifier) (ps : Pairs) : List Identifier :=
  Identifier.setOf ((ps.list.filter fun p => p.1 = pullRequest).map Prod.snd)

/-- The set of the pull requests that a user reviews. -/
def reviewedBy (user : Identifier) (ps : Pairs) : List Identifier :=
  Identifier.setOf ((ps.list.filter fun p => p.2 = user).map Prod.fst)

theorem mem_insert {p q : Identifier × Identifier} {ps : Pairs} : q ∈ ps.insert p ↔ q = p ∨ q ∈ ps := by
  show q ∈ (ps.insert p).list ↔ q = p ∨ q ∈ ps.list
  unfold insert
  split
  · rename_i h
    exact ⟨Or.inr, fun hq => hq.elim (fun he => he ▸ h) id⟩
  · simp [or_comm]

theorem mem_erase {p q : Identifier × Identifier} {ps : Pairs} : q ∈ ps.erase p ↔ q ≠ p ∧ q ∈ ps := by
  show q ∈ (ps.erase p).list ↔ q ≠ p ∧ q ∈ ps.list
  simp [erase, and_comm]

end Pairs

structure Tables where
  teams : Ledger Team
  users : Ledger User
  pullRequests : Ledger PullRequest
  reviewers : Pairs

namespace Tables

def empty : Tables := ⟨.empty, .empty, .empty, .empty⟩

instance : Inhabited Tables := ⟨empty⟩

/-- The first team of a name. -/
def teamNamed? (name : String) (t : Tables) : Option Team := t.teams.values.find? fun team => team.name = name

/-- Another user of the same team has the same username. -/
def usernameTaken (u : User) (t : Tables) : Bool :=
  t.users.values.any fun other => other.id ≠ u.id && other.teamId = u.teamId && other.username = u.username

/-- The users of a team by username; users of one username stay in the order of the table. -/
def usersOfTeam (teamId : Identifier) (t : Tables) : List User :=
  (t.users.values.filter fun u => u.teamId = teamId).mergeSort fun a b => a.username ≤ b.username

/-- The tables with a user put in. -/
def putUser (u : User) (t : Tables) : Tables := { t with users := t.users.put u.id u }

/-- The tables with a pull request put in. -/
def putPullRequest (p : PullRequest) (t : Tables) : Tables :=
  { t with pullRequests := t.pullRequests.put p.id p }

def sortedPairs (t : Tables) : List (Identifier × Identifier) :=
  t.reviewers.list.mergeSort fun p q => p.1.toNat < q.1.toNat || (p.1 = q.1 && p.2.le q.2)

/-- The contents as a document, each part in the order of identifiers. -/
def toJson (t : Tables) : Json :=
  .object [
    ("teams", .list ((t.teams.values.mergeSort fun a b => a.id.le b.id).map Team.toJson)),
    ("users", .list ((t.users.values.mergeSort fun a b => a.id.le b.id).map User.toJson)),
    ("pull_requests", .list ((t.pullRequests.values.mergeSort fun a b => a.id.le b.id).map PullRequest.toJson)),
    ("reviewers", .list (t.sortedPairs.map fun p => .list [.text p.1.text, .text p.2.text]))]

end Tables

/-- Tables and what the surroundings hand out to them. -/
structure World where
  tables : Tables
  supply : Supply
deriving Inhabited

namespace StoreCall

/-- The refusal of a second user of one username in a team. -/
def usernameConflict (username : String) : Failure :=
  .worded .conflict "username already taken in team" (.text username)

/-- The reply to a request that found nothing under an identifier. -/
def absent (id : Identifier) : Failure := .about .notFound id

/-- Carry out a request on tables. -/
def run : (c : StoreCall) → World → Except Failure c.Reply × World
  | createTeam name, w =>
    match w.tables.teamNamed? name with
    | some _ => (.error (.worded .conflict "team name already taken" (.text name)), w)
    | none =>
      let (id, supply) := w.supply.freshId
      (.ok ⟨id, name⟩, ⟨{ w.tables with teams := w.tables.teams.put id ⟨id, name⟩ }, supply⟩)
  | teamNamed name, w =>
    match w.tables.teamNamed? name with
    | some t => (.ok t, w)
    | none => (.error (.named .notFound name), w)
  | team id, w =>
    match w.tables.teams.find? id with
    | some t => (.ok t, w)
    | none => (.error (absent id), w)
  | createUser username isActive teamId id?, w =>
    let (id, supply) := match id? with
      | some id => (id, w.supply)
      | none => w.supply.freshId
    let u : User := ⟨id, username, isActive, teamId⟩
    if w.tables.users.contains id then
      (.error (.worded .conflict "user already exists" (.entity id)), ⟨w.tables, supply⟩)
    else if w.tables.usernameTaken u then (.error (usernameConflict username), ⟨w.tables, supply⟩)
    else (.ok u, ⟨w.tables.putUser u, supply⟩)
  | user id, w =>
    match w.tables.users.find? id with
    | some u => (.ok u, w)
    | none => (.error (absent id), w)
  | setActive id isActive, w =>
    match w.tables.users.find? id with
    | some u =>
      let u := { u with isActive }
      (.ok u, { w with tables := { w.tables with users := w.tables.users.put id u } })
    | none => (.error (absent id), w)
  | usersOfTeam teamId, w => (.ok (w.tables.usersOfTeam teamId), w)
  | updateUser u, w =>
    match w.tables.users.find? u.id with
    | some _ =>
      if w.tables.usernameTaken u then (.error (usernameConflict u.username), w)
      else (.ok u, { w with tables := w.tables.putUser u })
    | none => (.error (absent u.id), w)
  | createPullRequest id name authorId, w =>
    if w.tables.pullRequests.contains id then
      (.error (.worded .conflict "pull request already exists" (.entity id)), w)
    else if !w.tables.users.contains authorId then
      (.error (.worded .notFound "author not found" (.entity authorId)), w)
    else
      let (now, supply) := w.supply.readClock
      let pr : PullRequest := ⟨id, name, authorId, .opened, now, none⟩
      (.ok pr, ⟨w.tables.putPullRequest pr, supply⟩)
  | pullRequest id _, w =>
    match w.tables.pullRequests.find? id with
    | some pr => (.ok pr, w)
    | none => (.error (absent id), w)
  | pullRequests ids, w =>
    (.ok ((Cell.ids ids).filterMap w.tables.pullRequests.find?), w)
  | setMerged id, w =>
    match w.tables.pullRequests.find? id with
    | some pr =>
      if pr.isMerged then (.ok pr, w)
      else
        let (now, supply) := w.supply.readClock
        let pr := { pr with status := .merged, mergedAt := some now }
        (.ok pr, ⟨w.tables.putPullRequest pr, supply⟩)
    | none => (.error (absent id), w)
  | assign p u, w =>
    if (p, u) ∈ w.tables.reviewers then
      (.error (.worded .conflict "reviewer already assigned" (.entity u)), w)
    else if !w.tables.pullRequests.contains p || !w.tables.users.contains u then
      (.error (.refused ⟨.notFound, none, some (.pair p u)⟩), w)
    else (.ok (), { w with tables := { w.tables with reviewers := w.tables.reviewers.insert (p, u) } })
  | unassign p u, w =>
    if (p, u) ∈ w.tables.reviewers then
      (.ok (), { w with tables := { w.tables with reviewers := w.tables.reviewers.erase (p, u) } })
    else (.error (.worded .notFound "reviewer assignment not found" (.entity u)), w)
  | reviewersOf p, w => (.ok ((w.tables.reviewers.reviewersOf p).map .identifier), w)
  | reviewedBy u, w => (.ok ((w.tables.reviewers.reviewedBy u).map .identifier), w)

/-- A team is found by its name. -/
theorem run_teamNamed {name : String} {team : Team} {w : World}
    (h : w.tables.teamNamed? name = some team) : (teamNamed name).run w = (.ok team, w) := by
  simp only [run, h]

/-- A name that no team has is refused. -/
theorem run_teamNamed_of_none {name : String} {w : World} (h : w.tables.teamNamed? name = none) :
    (teamNamed name).run w = (.error (.named .notFound name), w) := by
  simp only [run, h]

end StoreCall

/-- A world and the events reported in it, in order. -/
structure Account where
  world : World
  events : List Event

namespace Program

/-- Hold the dialogue of a call with tables alone. -/
def run (p : Program α) : StateM Account (Except Failure α) :=
  p.hold (fun q => modifyGet fun a => let (r, w) := q.run a.world; (r, { a with world := w }))
    (fun e => modify fun a => { a with events := a.events ++ [e] })

end Program

end ReviewRota
