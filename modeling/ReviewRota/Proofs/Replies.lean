import ReviewRota.Proofs.Integrity

/-!
# Replies of the tables

What the tables reply to the requests of the commands, and what the requests make of them, case by
case. Each case says under what circumstances it arises in terms of what is stored, so that the
commands can be followed without opening a request again.
-/

namespace ReviewRota

/-- A pull request as it is created. -/
def PullRequest.opening (id : Identifier) (name : String) (authorId : Identifier)
    (now : Instant) : PullRequest := ⟨id, name, authorId, .opened, now, none⟩

namespace StoreCall

variable {w : World}

/-! ## Teams -/

theorem run_team {id : Identifier} {team : Team} (h : w.tables.teams.find? id = some team) :
    (StoreCall.team id).run w = (.ok team, w) := by
  simp [run, h]

theorem run_createTeam {name : String} (h : w.tables.teamNamed? name = none) :
    (StoreCall.createTeam name).run w = (.ok ⟨w.supply.freshId.1, name⟩,
      ⟨{ w.tables with
          teams := w.tables.teams.put w.supply.freshId.1 ⟨w.supply.freshId.1, name⟩ },
        w.supply.freshId.2⟩) := by
  simp [run, h]

theorem run_createTeam_named {name : String} {team : Team}
    (h : w.tables.teamNamed? name = some team) : (StoreCall.createTeam name).run w =
      (.error (.worded .conflict "team name already taken" (.text name)), w) := by
  simp [run, h]

/-! ## Users -/

theorem run_user {id : Identifier} {u : User} (h : w.tables.users.find? id = some u) :
    (StoreCall.user id).run w = (.ok u, w) := by
  simp [run, h]

theorem run_user_of_none {id : Identifier} (h : w.tables.users.find? id = none) :
    (StoreCall.user id).run w = (.error (absent id), w) := by
  simp [run, h]

theorem run_createUser {u : User} (hnew : w.tables.users.find? u.id = none)
    (hname : w.tables.usernameTaken u = false) :
    (StoreCall.createUser u.username u.isActive u.teamId (some u.id)).run w =
      (.ok u, ⟨w.tables.putUser u, w.supply⟩) := by
  have habsent : w.tables.users.contains u.id = false := Ledger.contains_eq_false.mpr hnew
  simp [run, habsent, hname]

theorem run_updateUser {u old : User} (hold : w.tables.users.find? u.id = some old)
    (hname : w.tables.usernameTaken u = false) :
    (StoreCall.updateUser u).run w = (.ok u, ⟨w.tables.putUser u, w.supply⟩) := by
  simp [run, hold, hname]

theorem run_setActive {u : User} (h : w.tables.users.find? u.id = some u) (isActive : Bool) :
    (StoreCall.setActive u.id isActive).run w =
      (.ok { u with isActive }, ⟨w.tables.putUser { u with isActive }, w.supply⟩) := by
  simp [run, h, Tables.putUser]

theorem run_setActive_of_none {id : Identifier} (h : w.tables.users.find? id = none)
    (isActive : Bool) :
    (StoreCall.setActive id isActive).run w = (.error (absent id), w) := by
  simp [run, h]

/-! ## Pull requests -/

theorem run_pullRequest {id : Identifier} {p : PullRequest}
    (h : w.tables.pullRequests.find? id = some p) (lock : Bool) :
    (StoreCall.pullRequest id lock).run w = (.ok p, w) := by
  simp [run, h]

theorem run_pullRequest_of_none {id : Identifier}
    (h : w.tables.pullRequests.find? id = none) (lock : Bool) :
    (StoreCall.pullRequest id lock).run w = (.error (absent id), w) := by
  simp [run, h]

theorem run_createPullRequest {id authorId : Identifier} {author : User}
    (hp : w.tables.pullRequests.find? id = none)
    (ha : w.tables.users.find? authorId = some author) (name : String) :
    (StoreCall.createPullRequest id name authorId).run w =
      (.ok (.opening id name authorId w.supply.readClock.1),
        ⟨w.tables.putPullRequest (.opening id name authorId w.supply.readClock.1),
          w.supply.readClock.2⟩) := by
  have hnew : w.tables.pullRequests.contains id = false := Ledger.contains_eq_false.mpr hp
  have hauthor : w.tables.users.contains authorId = true :=
    Ledger.contains_eq_true.mpr ⟨author, ha⟩
  simp [run, hnew, hauthor, PullRequest.opening]

theorem run_createPullRequest_exists {id : Identifier} {p : PullRequest}
    (hp : w.tables.pullRequests.find? id = some p) (name : String) (authorId : Identifier) :
    (StoreCall.createPullRequest id name authorId).run w =
      (.error (.worded .conflict "pull request already exists" (.entity id)), w) := by
  have hstored : w.tables.pullRequests.contains id = true :=
    Ledger.contains_eq_true.mpr ⟨p, hp⟩
  simp [run, hstored]

theorem run_createPullRequest_noAuthor {id authorId : Identifier}
    (hp : w.tables.pullRequests.find? id = none) (ha : w.tables.users.find? authorId = none)
    (name : String) : (StoreCall.createPullRequest id name authorId).run w =
      (.error (.worded .notFound "author not found" (.entity authorId)), w) := by
  simp [run, Ledger.contains, hp, ha]

theorem run_setMerged {p : PullRequest} (h : w.tables.pullRequests.find? p.id = some p)
    (ho : p.status = .opened) : (StoreCall.setMerged p.id).run w =
      (.ok (p.mergedOn w.supply.readClock.1),
        ⟨w.tables.putPullRequest (p.mergedOn w.supply.readClock.1),
          w.supply.readClock.2⟩) := by
  have hopen : p.isMerged = false := by simp [PullRequest.isMerged, ho]
  simp [run, h, hopen, PullRequest.mergedOn]

/-! ## Reviewers -/

theorem run_assign {p u : Identifier} {pr : PullRequest} {user : User}
    (hfree : (p, u) ∉ w.tables.reviewers) (hp : w.tables.pullRequests.find? p = some pr)
    (hu : w.tables.users.find? u = some user) : (StoreCall.assign p u).run w =
      (.ok (), ⟨{ w.tables with reviewers := w.tables.reviewers.insert (p, u) },
        w.supply⟩) := by
  have hstored : w.tables.pullRequests.contains p = true :=
    Ledger.contains_eq_true.mpr ⟨pr, hp⟩
  have huser : w.tables.users.contains u = true := Ledger.contains_eq_true.mpr ⟨user, hu⟩
  simp [run, hfree, hstored, huser]

theorem run_assign_assigned {p u : Identifier} (h : (p, u) ∈ w.tables.reviewers) :
    (StoreCall.assign p u).run w =
      (.error (.worded .conflict "reviewer already assigned" (.entity u)), w) := by
  simp [run, h]

theorem run_assign_absent {p u : Identifier} (hfree : (p, u) ∉ w.tables.reviewers)
    (h : w.tables.pullRequests.find? p = none ∨ w.tables.users.find? u = none) :
    (StoreCall.assign p u).run w = (.error (.refused ⟨.notFound, none, some (.pair p u)⟩), w) := by
  rcases h with h | h <;> simp [run, Ledger.contains, hfree, h]

theorem run_unassign {p u : Identifier} (h : (p, u) ∈ w.tables.reviewers) :
    (StoreCall.unassign p u).run w =
      (.ok (), ⟨{ w.tables with reviewers := w.tables.reviewers.erase (p, u) },
        w.supply⟩) := by
  simp [run, h]

end StoreCall

end ReviewRota
