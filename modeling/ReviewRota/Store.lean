import ReviewRota.Cell
import ReviewRota.Dialogue
import ReviewRota.Entity.PullRequest
import ReviewRota.Entity.Roster

/-!
# The store

What a call of the service can ask of the store: to find, create and change teams, users, pull
requests and the pairs of a pull request with a reviewer. The store answers a request for something
absent with the refusal `notFound` and a duplicate with the refusal `conflict`; the calls put refusals
of their own in the place of these.
-/

namespace ReviewRota

inductive StoreCall where
  | createTeam (name : String)
  | teamNamed (name : String)
  | team (id : Identifier)
  /-- Without an identifier a fresh one is taken. -/
  | createUser (username : String) (isActive : Bool) (teamId : Identifier) (id : Option Identifier)
  | user (id : Identifier)
  | setActive (id : Identifier) (isActive : Bool)
  /-- The users of a team by username. -/
  | usersOfTeam (teamId : Identifier)
  | updateUser (user : User)
  /-- A new pull request is open and bears the time of the store's clock. -/
  | createPullRequest (id : Identifier) (name : String) (authorId : Identifier)
  /-- With `lock`, other transactions that ask for the pull request with `lock` wait for this one. -/
  | pullRequest (id : Identifier) (lock : Bool)
  /-- Those of the pull requests that exist. -/
  | pullRequests (ids : List Cell)
  /-- A pull request that is merged already stays as it is. -/
  | setMerged (id : Identifier)
  | assign (pullRequest user : Identifier)
  | unassign (pullRequest user : Identifier)
  /-- The set of the reviewers of a pull request. -/
  | reviewersOf (pullRequest : Identifier)
  /-- The set of the pull requests that a user reviews. -/
  | reviewedBy (user : Identifier)

namespace StoreCall

@[reducible] def Reply : StoreCall → Type
  | createTeam _ | teamNamed _ | team _ => Team
  | createUser .. | user _ | setActive .. | updateUser _ => User
  | usersOfTeam _ => List User
  | createPullRequest .. | pullRequest .. | setMerged _ => PullRequest
  | pullRequests _ => List PullRequest
  | assign .. | unassign .. => Unit
  | reviewersOf _ | reviewedBy _ => List Cell

end StoreCall

/-- A call of the service as a dialogue with the store. -/
abbrev Program (α : Type) := Dialogue StoreCall StoreCall.Reply α

namespace StoreCall

/-- A request whose failures are passed on. -/
def put (q : StoreCall) : Program q.Reply := Dialogue.put q

/-- A request whose failures are passed on in other words. -/
def putOr (q : StoreCall) (reword : Failure → Failure) : Program q.Reply := Dialogue.putOr q reword

end StoreCall

inductive StoreName where
  | teams
  | users
  | pullRequests
  | reviewers
deriving DecidableEq

inductive Method where
  | create
  | getByName
  | getById
  | getByIds
  | setActive
  | getAllByTeam
  | update
  | setMerged
  | assignOne
  | removeOne
  | listReviewers
  | listByUser
deriving DecidableEq

/-- The methods that the tables in memory enter for a request, in order. Those that change an entity
look it up first. All methods are entered before anything is changed. -/
def StoreCall.entered : StoreCall → List (StoreName × Method)
  | createTeam _ => [(.teams, .create)]
  | teamNamed _ => [(.teams, .getByName)]
  | team _ => [(.teams, .getById)]
  | createUser .. => [(.users, .create)]
  | user _ => [(.users, .getById)]
  | setActive .. => [(.users, .setActive), (.users, .getById)]
  | usersOfTeam _ => [(.users, .getAllByTeam)]
  | updateUser _ => [(.users, .update), (.users, .getById)]
  | createPullRequest .. => [(.pullRequests, .create)]
  | pullRequest .. => [(.pullRequests, .getById)]
  | pullRequests _ => [(.pullRequests, .getByIds)]
  | setMerged _ => [(.pullRequests, .setMerged), (.pullRequests, .getById)]
  | assign .. => [(.reviewers, .assignOne)]
  | unassign .. => [(.reviewers, .removeOne)]
  | reviewersOf _ => [(.reviewers, .listReviewers)]
  | reviewedBy _ => [(.reviewers, .listByUser)]

end ReviewRota
