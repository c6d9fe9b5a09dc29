import ReviewRota.Field

/-!
# Teams

A team has an identifier and a name. A roster is a team with its users.
-/

namespace ReviewRota

structure Team where
  id : Identifier
  name : String
deriving DecidableEq, Inhabited

namespace Team

def toJson (t : Team) : Json := .object [("id", .text t.id.text), ("name", .text t.name)]

/-- The team that a document holds. -/
def ofJson (refusal : IssueKind) (j : Json) : Checked Team :=
  Field.members refusal j fun ms =>
    Team.mk <$> Field.required "id" Field.identifier ms <*> Field.required "name" Field.text ms

end Team

end ReviewRota
