import ReviewRota.Field

/-!
# Users

A user belongs to one team and is active or not. Only active users review.
-/

namespace ReviewRota

structure User where
  id : Identifier
  username : String
  isActive : Bool
  teamId : Identifier
deriving DecidableEq, Inhabited

namespace User

def toJson (u : User) : Json :=
  .object [("id", .text u.id.text), ("username", .text u.username), ("is_active", .bool u.isActive),
    ("team_id", .text u.teamId.text)]

/-- The user that a document holds. -/
def ofJson (refusal : IssueKind) (j : Json) : Checked User :=
  Field.members refusal j fun ms =>
    User.mk <$> Field.required "id" Field.identifier ms <*> Field.required "username" Field.text ms <*>
      Field.required "is_active" Field.truth ms <*> Field.required "team_id" Field.identifier ms

end User

/-- A user together with the name of the team. -/
structure Teammate where
  id : Identifier
  username : String
  isActive : Bool
  teamName : String
deriving DecidableEq, Inhabited

namespace Teammate

/-- A user with the name of the team, as a document. -/
def toJson (u : Teammate) : Json :=
  .object [("id", .text u.id.text), ("username", .text u.username), ("is_active", .bool u.isActive),
    ("team_name", .text u.teamName)]

/-- The user with the name of the team that a document holds. -/
def ofJson (refusal : IssueKind) (j : Json) : Checked Teammate :=
  Field.members refusal j fun ms =>
    Teammate.mk <$> Field.required "id" Field.identifier ms <*> Field.required "username" Field.text ms <*>
      Field.required "is_active" Field.truth ms <*> Field.required "team_name" Field.text ms

/-- What a client is told about a user. -/
def answer (u : Teammate) : Json :=
  .object [("user_id", .text u.id.text), ("username", .text u.username), ("team_name", .text u.teamName),
    ("is_active", .bool u.isActive)]

end Teammate

end ReviewRota
