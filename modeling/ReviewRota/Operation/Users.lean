import ReviewRota.Store

/-!
# Calls about users
-/

namespace ReviewRota.Operation

open StoreCall (put putOr)

def user (id : Identifier) : Program User :=
  putOr (.user id) (Failure.replacing .notFound (.about .userNotFound id))

/-- Set the activity of a user. -/
def setActive (id : Identifier) (isActive : Bool) : Program Teammate := do
  let user : User ← putOr (.setActive id isActive) (Failure.replacing .notFound (.about .userNotFound id))
  let team : Team ← put (.team user.teamId)
  return ⟨user.id, user.username, user.isActive, team.name⟩

/-- The event of a changed activity. -/
def activityChanged (id : Identifier) (isActive : Bool) : Event :=
  ⟨.info, "user activity changed", [("user_id", .text id.text), ("is_active", .bool isActive)]⟩

end ReviewRota.Operation
