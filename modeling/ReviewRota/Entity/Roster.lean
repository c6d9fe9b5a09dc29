import ReviewRota.Entity.Team
import ReviewRota.Entity.User

/-!
# Rosters

A team with its users.
-/

namespace ReviewRota

structure Roster where
  team : Team
  users : List User
deriving DecidableEq, Inhabited

namespace Roster

def toJson (r : Roster) : Json :=
  .object [("team", r.team.toJson), ("users", .list (r.users.map User.toJson))]

/-- The roster that a document holds. -/
def ofJson (refusal : IssueKind) (j : Json) : Checked Roster :=
  Field.members refusal j fun ms =>
    Roster.mk <$> Field.required "team" (Team.ofJson refusal) ms <*>
      Field.required "users" (Field.list (User.ofJson refusal)) ms

/-- What a client is told about a member of a team. -/
def memberAnswer (u : User) : Json :=
  .object [("user_id", .text u.id.text), ("username", .text u.username), ("is_active", .bool u.isActive)]

/-- What a client is told about a team. -/
def answer (r : Roster) : Json :=
  .object [("team_name", .text r.team.name), ("members", .list (r.users.map memberAnswer))]

end Roster

end ReviewRota
