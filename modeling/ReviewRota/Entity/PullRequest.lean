import ReviewRota.Field

/-!
# Pull requests

A pull request has an author, is open until it is merged, and remembers when it was created and
when it was merged. Reviewers are not part of it; the types after it put the two together.
-/

namespace ReviewRota

inductive Status where
  | opened
  | merged
deriving DecidableEq, Inhabited

namespace Status

def word : Status → String
  | opened => "OPEN"
  | merged => "MERGED"

/-- The status that a document names. -/
def ofJson : Json → Checked Status
  | .text s =>
    if s = opened.word then .valid opened
    else if s = merged.word then .valid merged
    else Checked.issue .status (.text s)
  | j => Checked.issue .status j

end Status

structure PullRequest where
  id : Identifier
  name : String
  authorId : Identifier
  status : Status
  createdAt : Instant
  mergedAt : Option Instant
deriving DecidableEq, Inhabited

namespace PullRequest

def isMerged (p : PullRequest) : Bool := p.status = .merged

theorem opened_of_isMerged {p : PullRequest} (h : ¬ p.isMerged = true) : p.status = .opened := by
  cases hs : p.status with
  | opened => rfl
  | merged => exact absurd (by simp [isMerged, hs]) h

/-- The time of the merge, or nothing. -/
def mergedAtJson (p : PullRequest) : Json :=
  match p.mergedAt with
  | some i => .text i.text
  | none => .null

/-- A pull request as a document. -/
def toJson (p : PullRequest) : Json :=
  .object [("id", .text p.id.text), ("name", .text p.name), ("author_id", .text p.authorId.text),
    ("status", .text p.status.word), ("created_at", .text p.createdAt.text), ("merged_at", p.mergedAtJson)]

/-- The pull request that a document holds. A pull request is open and not merged unless the
document has it otherwise. -/
def ofJson (refusal : IssueKind) (j : Json) : Checked PullRequest :=
  Field.members refusal j fun ms =>
    PullRequest.mk <$> Field.required "id" Field.identifier ms <*> Field.required "name" Field.text ms <*>
      Field.required "author_id" Field.identifier ms <*> Field.defaulted "status" .opened Status.ofJson ms <*>
      Field.required "created_at" Field.instant ms <*>
      Field.defaulted "merged_at" none (Field.optional Field.instant) ms

/-- Pull requests in the order of their creation, and of their identifiers where they were created
at the same instant. -/
def createdBefore (p q : PullRequest) : Bool :=
  p.createdAt.universal < q.createdAt.universal ||
    (p.createdAt.universal = q.createdAt.universal && p.id.le q.id)

/-- The order by creation is defined on all of these pull requests. -/
def haveOrder (ps : List PullRequest) : Bool :=
  ps.all fun p => ps.all fun q => p.createdAt.comparable q.createdAt

end PullRequest

/-- The short form of a pull request. -/
structure PullRequestSummary where
  id : Identifier
  name : String
  authorId : Identifier
  status : Status
deriving DecidableEq, Inhabited

namespace PullRequestSummary

/-- The short form of a pull request. -/
def of (p : PullRequest) : PullRequestSummary := ⟨p.id, p.name, p.authorId, p.status⟩

/-- The short form of a pull request, as a document. -/
def toJson (p : PullRequestSummary) : Json :=
  .object [("id", .text p.id.text), ("name", .text p.name), ("author_id", .text p.authorId.text),
    ("status", .text p.status.word)]

/-- The short form that a document holds. -/
def ofJson (refusal : IssueKind) (j : Json) : Checked PullRequestSummary :=
  Field.members refusal j fun ms =>
    PullRequestSummary.mk <$> Field.required "id" Field.identifier ms <*> Field.required "name" Field.text ms <*>
      Field.required "author_id" Field.identifier ms <*> Field.required "status" Status.ofJson ms

/-- What a client is told about a pull request in a list. -/
def answer (p : PullRequestSummary) : Json :=
  .object [("pull_request_id", .text p.id.text), ("pull_request_name", .text p.name),
    ("author_id", .text p.authorId.text), ("status", .text p.status.word)]

end PullRequestSummary

/-- A pull request with its reviewers. -/
structure Review where
  pullRequest : PullRequest
  reviewers : List Identifier
deriving DecidableEq, Inhabited

namespace Review

/-- The identifiers of reviewers as a document. -/
def reviewersJson (r : Review) : Json := .list (r.reviewers.map fun i => .text i.text)

/-- A pull request with its reviewers, as a document. -/
def toJson (r : Review) : Json :=
  .object [("pull_request", r.pullRequest.toJson), ("reviewers", r.reviewersJson)]

/-- The pull request with reviewers that a document holds. -/
def ofJson (refusal : IssueKind) (j : Json) : Checked Review :=
  Field.members refusal j fun ms =>
    Review.mk <$> Field.required "pull_request" (PullRequest.ofJson refusal) ms <*>
      Field.required "reviewers" (Field.list Field.identifier) ms

/-- What a client is told about a pull request. -/
def answer (r : Review) : Json :=
  let p := r.pullRequest
  .object [("pull_request_id", .text p.id.text), ("pull_request_name", .text p.name),
    ("author_id", .text p.authorId.text), ("status", .text p.status.word),
    ("assigned_reviewers", r.reviewersJson), ("createdAt", .text p.createdAt.text),
    ("mergedAt", p.mergedAtJson)]

end Review

/-- A pull request with its reviewers after one of them was replaced, and the new reviewer. -/
structure Replacement extends Review where
  replacedBy : Identifier
deriving DecidableEq, Inhabited

namespace Replacement

def toJson (r : Replacement) : Json :=
  .object [("pull_request", r.pullRequest.toJson), ("reviewers", r.reviewersJson),
    ("replaced_by", .text r.replacedBy.text)]

/-- The replacement that a document holds. -/
def ofJson (refusal : IssueKind) (j : Json) : Checked Replacement :=
  Field.members refusal j fun ms =>
    (fun p rs n => Replacement.mk ⟨p, rs⟩ n) <$>
      Field.required "pull_request" (PullRequest.ofJson refusal) ms <*>
      Field.required "reviewers" (Field.list Field.identifier) ms <*>
      Field.required "replaced_by" Field.identifier ms

end Replacement

end ReviewRota
