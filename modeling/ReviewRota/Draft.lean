import ReviewRota.Field

/-!
# Drafts

What clients ask for, read from documents and normalised: names are trimmed, identifiers and truth
values have one form left. In a draft of a team all members differ in identifier and in username.
-/

namespace ReviewRota

/-- A member of a team that is to be created. -/
structure MemberDraft where
  userId : Identifier
  username : String
  isActive : Bool
deriving DecidableEq, Inhabited

namespace MemberDraft

def toJson (m : MemberDraft) : Json :=
  .object [("user_id", .text m.userId.text), ("username", .text m.username), ("is_active", .bool m.isActive)]

/-- The member that a document holds. Members are active unless the document has it otherwise. -/
def ofJson (refusal : IssueKind) (j : Json) : Checked MemberDraft :=
  Field.members refusal j fun ms =>
    MemberDraft.mk <$> Field.required "user_id" Field.identifier ms <*>
      Field.required "username" Field.name ms <*> Field.defaulted "is_active" true Field.truth ms

end MemberDraft

/-- A team that is to be created. -/
structure TeamDraft where
  teamName : String
  members : List MemberDraft
deriving DecidableEq, Inhabited

namespace TeamDraft

/-- A team that is to be created, as a document. -/
def toJson (t : TeamDraft) : Json :=
  .object [("team_name", .text t.teamName), ("members", .list (t.members.map MemberDraft.toJson))]

/-- The rule about the members: first their identifiers differ, then their usernames. -/
def checkMembers (document : Json) (t : TeamDraft) : Checked TeamDraft :=
  if ¬ (t.members.map MemberDraft.userId).Nodup then
    Checked.issue (.rule "members contain duplicated user_id") document
  else if ¬ (t.members.map MemberDraft.username).Nodup then
    Checked.issue (.rule "members contain duplicated username") document
  else .valid t

/-- The team that a document asks for. A team has no members unless the document lists some. -/
def ofJson (refusal : IssueKind) (j : Json) : Checked TeamDraft :=
  (Field.members refusal j fun ms =>
    TeamDraft.mk <$> Field.required "team_name" Field.name ms <*>
      Field.defaulted "members" [] (Field.list (MemberDraft.ofJson refusal)) ms).andThen (checkMembers j)

end TeamDraft

/-- A change of a user's activity. -/
structure ActivityDraft where
  userId : Identifier
  isActive : Bool
deriving DecidableEq, Inhabited

namespace ActivityDraft

/-- A change of activity as a document. -/
def toJson (a : ActivityDraft) : Json :=
  .object [("user_id", .text a.userId.text), ("is_active", .bool a.isActive)]

/-- The change of activity that a document asks for. -/
def ofJson (refusal : IssueKind) (j : Json) : Checked ActivityDraft :=
  Field.members refusal j fun ms =>
    ActivityDraft.mk <$> Field.required "user_id" Field.identifier ms <*>
      Field.required "is_active" Field.truth ms

end ActivityDraft

/-- A pull request that is to be created. -/
structure PullRequestDraft where
  pullRequestId : Identifier
  pullRequestName : String
  authorId : Identifier
deriving DecidableEq, Inhabited

namespace PullRequestDraft

/-- A pull request that is to be created, as a document. -/
def toJson (p : PullRequestDraft) : Json :=
  .object [("pull_request_id", .text p.pullRequestId.text), ("pull_request_name", .text p.pullRequestName),
    ("author_id", .text p.authorId.text)]

/-- The pull request that a document asks for. -/
def ofJson (refusal : IssueKind) (j : Json) : Checked PullRequestDraft :=
  Field.members refusal j fun ms =>
    PullRequestDraft.mk <$> Field.required "pull_request_id" Field.identifier ms <*>
      Field.required "pull_request_name" Field.name ms <*> Field.required "author_id" Field.identifier ms

end PullRequestDraft

/-- A pull request that is to be merged. -/
structure MergeDraft where
  pullRequestId : Identifier
deriving DecidableEq, Inhabited

namespace MergeDraft

/-- A pull request that is to be merged, as a document. -/
def toJson (m : MergeDraft) : Json := .object [("pull_request_id", .text m.pullRequestId.text)]

/-- The pull request that a document asks to merge. -/
def ofJson (refusal : IssueKind) (j : Json) : Checked MergeDraft :=
  Field.members refusal j fun ms => MergeDraft.mk <$> Field.required "pull_request_id" Field.identifier ms

end MergeDraft

/-- A reviewer who is to be replaced. -/
structure ReassignDraft where
  pullRequestId : Identifier
  oldUserId : Identifier
deriving DecidableEq, Inhabited

namespace ReassignDraft

/-- A reviewer who is to be replaced, as a document. -/
def toJson (r : ReassignDraft) : Json :=
  .object [("pull_request_id", .text r.pullRequestId.text), ("old_user_id", .text r.oldUserId.text)]

/-- The replacement that a document asks for. -/
def ofJson (refusal : IssueKind) (j : Json) : Checked ReassignDraft :=
  Field.members refusal j fun ms =>
    ReassignDraft.mk <$> Field.required "pull_request_id" Field.identifier ms <*>
      Field.required "old_user_id" Field.identifier ms

end ReassignDraft

end ReviewRota
