import ReviewRota.Operation.PullRequests
import ReviewRota.Operation.Teams
import ReviewRota.Operation.Users

/-!
# Calls of the service

The nine calls of the service. A command changes the store in one transaction and reports an event
once the transaction is over; a query reads the store outside of any transaction.
-/

namespace ReviewRota

/-- The most reviewers that a pull request gets unless the caller has it otherwise. -/
def usualReviewers : Int := 2

/-- A call that changes the store. -/
inductive Command where
  | createTeam (draft : TeamDraft)
  | setActive (userId : Identifier) (isActive : Bool)
  | openPullRequest (id : Identifier) (name : String) (authorId : Identifier) (draws : Draws) (limit : Int)
  | merge (id : Identifier)
  | reassign (id old : Identifier) (draws : Draws)

namespace Command

@[reducible] def Result : Command → Type
  | createTeam _ => Roster
  | setActive .. => Teammate
  | openPullRequest .. => Review
  | merge _ => PullRequest
  | reassign .. => Replacement

/-- What a command does inside its transaction. -/
def program : (c : Command) → Program c.Result
  | createTeam draft => Operation.createTeam draft
  | setActive id isActive => Operation.setActive id isActive
  | openPullRequest id name author draws limit => Operation.openPullRequest id name author draws limit
  | merge id => Operation.merge id
  | reassign id old draws => Operation.reassign id old draws

/-- The event that a command reports after its transaction. -/
def report : (c : Command) → c.Result → Except Failure Event
  | createTeam draft, r => .ok (Operation.teamCreated draft r)
  | setActive id isActive, _ => .ok (Operation.activityChanged id isActive)
  | openPullRequest id _ author _ _, r => .ok (Operation.pullRequestCreated id author r)
  | merge id, r => Operation.pullRequestMerged id r
  | reassign id old _, r => .ok (Operation.reviewerReassigned id old r)

end Command

/-- A call that reads the store. -/
inductive Query where
  | team (name : String)
  | user (id : Identifier)
  | review (id : Identifier)
  | assignedReviews (userId : Identifier)

namespace Query

@[reducible] def Result : Query → Type
  | team _ => Roster
  | user _ => User
  | review _ => Review
  | assignedReviews _ => List PullRequestSummary

/-- What a query asks of the store. -/
def program : (q : Query) → Program q.Result
  | team name => Operation.team name
  | user id => Operation.user id
  | review id => Operation.review id
  | assignedReviews id => Operation.assignedReviews id

end Query

end ReviewRota
