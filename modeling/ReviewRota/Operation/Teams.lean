import ReviewRota.Draft
import ReviewRota.Store

/-!
# Calls about teams

Creating a team moves those of its members that exist already out of their former teams and gives
them the username and activity of the draft.
-/

namespace ReviewRota.Operation

open StoreCall (put putOr)

/-- Put one member into a team, be it a new user or one that exists. -/
def putMember (teamId : Identifier) (m : MemberDraft) : Program User :=
  let taken := Failure.replacing .conflict (.about .usernameTaken m.userId)
  .ask (.user m.userId) fun known =>
    match known with
    | .ok _ => putOr (.updateUser ⟨m.userId, m.username, m.isActive, teamId⟩) taken
    | .error f =>
      if f.isA .notFound then putOr (.createUser m.username m.isActive teamId (some m.userId)) taken
      else .fail f

/-- Create a team with its members. -/
def createTeam (draft : TeamDraft) : Program Roster := do
  let team : Team ← putOr (.createTeam draft.teamName)
    (Failure.replacing .conflict (.named .teamExists draft.teamName))
  let users ← Dialogue.each (putMember team.id) draft.members
  return ⟨team, users⟩

/-- The event of a created team. -/
def teamCreated (draft : TeamDraft) (r : Roster) : Event :=
  ⟨.info, "team created", [("team_name", .text draft.teamName), ("members", .int r.users.length)]⟩

/-- A team and its users by username. -/
def team (name : String) : Program Roster := do
  let team : Team ← putOr (.teamNamed name) (Failure.replacing .notFound (.named .teamNotFound name))
  let users ← put (.usersOfTeam team.id)
  return ⟨team, users⟩

end ReviewRota.Operation
