import ReviewRota.Selection
import ReviewRota.Store

/-!
# Calls about pull requests

A new pull request gets reviewers from the team of its author. As long as it is open, a reviewer can
be replaced by another active user of the author's team; once it is merged nothing changes any more.
-/

namespace ReviewRota.Operation

open StoreCall (put putOr)

/-- A pull request, locked if it is to be changed. -/
def findPullRequest (id : Identifier) (lock : Bool) : Program PullRequest :=
  putOr (.pullRequest id lock) (Failure.replacing .notFound (.about .pullRequestNotFound id))

/-- Create a pull request and assign up to `limit` reviewers, drawn among the active users of the
author's team without the author. -/
def openPullRequest (id : Identifier) (name : String) (authorId : Identifier) (draws : Draws)
    (limit : Int) : Program Review := do
  let author : User ← putOr (.user authorId) (Failure.replacing .notFound (.about .authorNotFound authorId))
  let pr : PullRequest ← putOr (.createPullRequest id name authorId)
    (Failure.replacing .conflict (.about .pullRequestExists id))
  let teammates : List User ← put (.usersOfTeam author.teamId)
  let reviewers := Selection.reviewers (Selection.eligible teammates [authorId]) limit draws
  let _ ← Dialogue.each (fun user => put (.assign pr.id user)) reviewers
  return ⟨pr, reviewers⟩

/-- The event of a created pull request. -/
def pullRequestCreated (id authorId : Identifier) (r : Review) : Event :=
  ⟨.info, "pull request created",
    [("pull_request_id", .text id.text), ("author_id", .text authorId.text), ("reviewers", r.reviewersJson)]⟩

/-- Merge a pull request, unless it is merged already. -/
def merge (id : Identifier) : Program PullRequest := do
  let pr : PullRequest ← findPullRequest id true
  if pr.isMerged then return pr
  else putOr (.setMerged id) (Failure.replacing .notFound (.about .pullRequestNotFound id))

/-- The event of a merge, which needs the time of the merge. -/
def pullRequestMerged (id : Identifier) (p : PullRequest) : Except Failure Event :=
  match p.mergedAt with
  | some i =>
    .ok ⟨.info, "pull request merged", [("pull_request_id", .text id.text), ("merged_at", .text i.text)]⟩
  | none => .error .undatedMerge

/-- The warning that nobody can take the place of a reviewer. -/
def noCandidate (pullRequestId old : Identifier) : Event :=
  ⟨.warning, "no replacement candidate",
    [("pull_request_id", .text pullRequestId.text), ("old_user_id", .text old.text)]⟩

/-- Replace a reviewer by a user drawn among the active users of the author's team, without the
author and the present reviewers. The answer holds the pull request as it was read. -/
def reassign (id old : Identifier) (draws : Draws) : Program Replacement := do
  let pr : PullRequest ← findPullRequest id true
  let reviewers : List Cell ← put (.reviewersOf pr.id)
  let current := Cell.ids reviewers
  Dialogue.ofExcept (Selection.checkReplaceable pr current old)
  let author : User ← put (.user pr.authorId)
  let teammates : List User ← put (.usersOfTeam author.teamId)
  let candidates := Selection.eligible teammates (pr.authorId :: old :: current)
  if candidates.isEmpty then
    .note (noCandidate pr.id old) (.fail (.about .noCandidate old))
  else
    let replacedBy ← Dialogue.ofExcept (Selection.replacement candidates draws)
    let () ← putOr (.unassign pr.id old) (Failure.replacing .notFound (.about .reviewerNotAssigned old))
    let () ← put (.assign pr.id replacedBy)
    let updated : List Cell ← put (.reviewersOf pr.id)
    let shown ← Dialogue.ofExcept (Cell.shown updated)
    return ⟨⟨pr, shown⟩, replacedBy⟩

/-- The event of a replaced reviewer. -/
def reviewerReassigned (id old : Identifier) (r : Replacement) : Event :=
  ⟨.info, "reviewer reassigned",
    [("pull_request_id", .text id.text), ("old_user_id", .text old.text),
      ("replaced_by", .text r.replacedBy.text)]⟩

/-- A pull request and its reviewers in the order of their identifiers. -/
def review (id : Identifier) : Program Review := do
  let pr : PullRequest ← findPullRequest id false
  let reviewers : List Cell ← put (.reviewersOf pr.id)
  let shown ← Dialogue.ofExcept (Cell.shown reviewers)
  return ⟨pr, shown⟩

/-- The pull requests that a user reviews, in short form and in the order of their creation. -/
def assignedReviews (userId : Identifier) : Program (List PullRequestSummary) := do
  let ids : List Cell ← put (.reviewedBy userId)
  if ids.isEmpty then return []
  else
    let prs : List PullRequest ← put (.pullRequests ids)
    if PullRequest.haveOrder prs then
      return (prs.mergeSort PullRequest.createdBefore).map .of
    else .fail .incomparableInstants

end ReviewRota.Operation
