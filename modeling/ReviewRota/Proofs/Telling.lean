import ReviewRota.Proofs.HistoryIndependence

/-!
# What queries tell

The answers of queries in a session at rest, read off the tables: a roster, a user, a review and the
list of a user's reviews. A query is told the same however often it is made, since it leaves the
tables as they are.
-/

namespace ReviewRota

open Operation (summaries)

namespace Program

theorem on_team {name : String} {team : Team} {w : World}
    (h : w.tables.teamNamed? name = some team) :
    (Operation.team name).on w = (.ok ⟨team, w.tables.usersOfTeam team.id⟩, w) := by
  rw [Operation.team, on_bind_of_ok (on_putOr_of_ok (StoreCall.run_teamNamed h) _)]
  exact on_bind_of_ok (on_put _ _) _

theorem on_team_of_none {name : String} {w : World} (h : w.tables.teamNamed? name = none) :
    (Operation.team name).on w = (.error (.named .teamNotFound name), w) := by
  have hrefused := StoreCall.run_teamNamed_of_none h
  rw [Operation.team, on_bind_of_error (on_putOr_of_refused hrefused rfl _)]

theorem on_user {id : Identifier} {u : User} {w : World} (h : w.tables.users.find? id = some u) :
    (Operation.user id).on w = (.ok u, w) :=
  on_putOr_of_ok (StoreCall.run_user h) _

end Program

namespace Session

/-- A query comes to this answer and leaves the tables at rest as they are. -/
def Tells (name : String) (s : Session) (q : Query) (answer : Except Failure q.Result) : Prop :=
  ∃ s', (Course.query name q).run s = some (answer, s') ∧
    ∀ t, s.Rests name t → s'.Rests name t

variable {name : String} {t : Tables} {s : Session}

theorem Tells.unique {q : Query} {a b : Except Failure q.Result} (h : s.Tells name q a)
    (h' : s.Tells name q b) : a = b := by
  obtain ⟨s', hrun, -⟩ := h
  obtain ⟨s'', hrun', -⟩ := h'
  rw [hrun] at hrun'
  cases hrun'
  rfl

namespace Rests

theorem tells (hs : s.Rests name t) (q : Query) :
    s.Tells name q (q.program.on ⟨t, s.supply⟩).1 := by
  obtain ⟨s', hrun, hs'⟩ := Task.query_keeps hs q
  exact ⟨s', hrun, fun t' ht' => hs.unique ht' ▸ hs'⟩

theorem tells_iff (hs : s.Rests name t) {q : Query} {answer : Except Failure q.Result} :
    s.Tells name q answer ↔ (q.program.on ⟨t, s.supply⟩).1 = answer := by
  constructor
  · intro h
    exact (hs.tells q).unique h
  · rintro rfl
    exact hs.tells q

/-- The roster of a name is the team of that name with its users by username. -/
theorem tells_team (hs : s.Rests name t) (ht : t.Unambiguous) {teamName : String} {r : Roster} :
    s.Tells name (.team teamName) (.ok r) ↔
      t.teams.find? r.team.id = some r.team ∧ r.team.name = teamName ∧
        r.users = t.usersOfTeam r.team.id := by
  rw [hs.tells_iff]
  show ((Operation.team teamName).on ⟨t, s.supply⟩).1 = _ ↔ _
  cases hnamed : t.teamNamed? teamName with
  | none =>
    rw [Program.on_team_of_none hnamed]
    constructor
    · rintro ⟨⟩
    · rintro ⟨hteam, hname, -⟩
      exact absurd hname (Tables.teamNamed?_eq_none.mp hnamed _ _ hteam)
  | some team =>
    rw [Program.on_team hnamed]
    obtain ⟨hteam, hname⟩ := ht.of_teamNamed? hnamed
    constructor
    · rintro ⟨⟩
      exact ⟨hteam, hname, rfl⟩
    · rintro ⟨hteam', hname', husers⟩
      have hsome := ht.teamNamed?_eq_some.mpr ⟨hteam', hname'⟩
      rw [hnamed] at hsome
      obtain rfl := Option.some.inj hsome
      rw [← husers]

theorem tells_user (hs : s.Rests name t) {id : Identifier} {u : User} :
    s.Tells name (.user id) (.ok u) ↔ t.users.find? id = some u := by
  rw [hs.tells_iff]
  show ((Operation.user id).on ⟨t, s.supply⟩).1 = _ ↔ _
  cases hu : t.users.find? id with
  | none =>
    have hrefused := StoreCall.run_user_of_none (w := ⟨t, s.supply⟩) hu
    rw [Operation.user, Program.on_putOr_of_refused hrefused rfl]
    simp
  | some v =>
    rw [Program.on_user hu]
    simp

/-- A review is the pull request with the set of its reviewers. -/
theorem tells_review (hs : s.Rests name t) (ht : t.Unambiguous) {id : Identifier} {r : Review} :
    s.Tells name (.review id) (.ok r) ↔
      t.pullRequests.find? id = some r.pullRequest ∧ r.reviewers = t.reviewers.reviewersOf id := by
  rw [hs.tells_iff]
  show ((Operation.review id).on ⟨t, s.supply⟩).1 = _ ↔ _
  cases hp : t.pullRequests.find? id with
  | none =>
    have hrefused := Program.on_findPullRequest_of_none (w := ⟨t, s.supply⟩) hp false
    rw [Operation.review, Program.on_bind_of_error hrefused]
    simp
  | some p =>
    obtain rfl := ht.pullRequestKeys id p hp
    rw [Program.on_review hp]
    obtain ⟨p', reviewers⟩ := r
    simp [eq_comm]

theorem tells_assignedReviews (hs : s.Rests name t) {userId : Identifier}
    {answer : Except Failure (List PullRequestSummary)} :
    s.Tells name (.assignedReviews userId) answer ↔
      summaries ((t.reviewers.reviewedBy userId).filterMap t.pullRequests.find?) = answer := by
  rw [hs.tells_iff]
  show ((Operation.assignedReviews userId).on ⟨t, s.supply⟩).1 = _ ↔ _
  rw [Program.on_assignedReviews]

/-- The team of three is told as it was created. -/
theorem tells_core (hs : s.Rests name (Call.founding.after .empty)) :
    s.Tells name (.team "core") (.ok Roster.core) :=
  (hs.tells_team History.integrity_founding.unambiguous).mpr
    ⟨by decide, rfl, Tables.usersOfTeam_founding.symm⟩

end Rests

end Session

end ReviewRota
