import ReviewRota.Proofs.HistoryIndependence

/-!
# How calls fail

On tables in good order a call fails in no other way than by a refusal, and each call has its few
kinds of refusals. Everything else that could break, an author or a team that is not there, a username
that is taken, a choice among nothing, a merge without a time, instants without an order, is ruled out
by what holds of the tables.
-/

namespace ReviewRota

/-- The kinds of refusals that a command comes to. -/
def Command.refusals : Command → List RefusalKind
  | createTeam _ => [.teamExists]
  | setActive .. => [.userNotFound]
  | openPullRequest .. => [.authorNotFound, .pullRequestExists]
  | merge _ => [.pullRequestNotFound]
  | reassign .. => [.pullRequestNotFound, .pullRequestMerged, .reviewerNotAssigned, .noCandidate]

/-- The failure is a refusal of one of these kinds. -/
def Failure.IsAmong (kinds : List RefusalKind) (f : Failure) : Prop :=
  ∃ r, f = .refused r ∧ r.kind ∈ kinds

namespace Command

open Program

variable {w : World}

theorem failure_createTeam (hi : w.tables.Integrity) {draft : TeamDraft}
    (hp : (createTeam draft).Proper w) {f : Failure}
    (h : ((Operation.createTeam draft).on w).1 = .error f) : f.IsAmong [.teamExists] := by
  cases hname : w.tables.teamNamed? draft.teamName with
  | some team =>
    rw [on_createTeam_named hname] at h
    cases h
    exact ⟨_, rfl, List.mem_singleton_self _⟩
  | none =>
    rw [on_createTeam_new hi hp.1 (hp.2 hname) hname] at h
    cases h

theorem failure_setActive (hi : w.tables.Integrity) {id : Identifier} {isActive : Bool} {f : Failure}
    (h : ((Operation.setActive id isActive).on w).1 = .error f) : f.IsAmong [.userNotFound] := by
  cases hu : w.tables.users.find? id with
  | none =>
    rw [on_setActive_unknown hu] at h
    cases h
    exact ⟨_, rfl, List.mem_singleton_self _⟩
  | some u =>
    obtain rfl : u.id = id := hi.userKeys id u hu
    obtain ⟨team, hteam⟩ := hi.userTeams _ u hu
    rw [on_setActive_known hu hteam] at h
    cases h

theorem failure_openPullRequest (hi : w.tables.Integrity) {id authorId : Identifier} {name : String}
    {draws : Draws} {limit : Int} {f : Failure}
    (h : ((Operation.openPullRequest id name authorId draws limit).on w).1 = .error f) :
    f.IsAmong [.authorNotFound, .pullRequestExists] := by
  cases ha : w.tables.users.find? authorId with
  | none =>
    rw [on_openPullRequest_noAuthor ha] at h
    cases h
    exact ⟨_, rfl, .head _⟩
  | some author =>
    obtain rfl : author.id = authorId := hi.userKeys authorId author ha
    cases hp : w.tables.pullRequests.find? id with
    | some p =>
      rw [on_openPullRequest_exists ha hp] at h
      cases h
      exact ⟨_, rfl, .tail _ (.head _)⟩
    | none =>
      rw [on_openPullRequest_new hi.coherent ha hp] at h
      cases h

theorem failure_merge (hi : w.tables.Integrity) {id : Identifier} {f : Failure}
    (h : ((Operation.merge id).on w).1 = .error f) : f.IsAmong [.pullRequestNotFound] := by
  cases hp : w.tables.pullRequests.find? id with
  | none =>
    rw [on_merge_unknown hp] at h
    cases h
    exact ⟨_, rfl, List.mem_singleton_self _⟩
  | some p =>
    obtain rfl : p.id = id := hi.pullRequestKeys id p hp
    cases hs : p.status with
    | opened =>
      rw [on_merge_opened hp hs] at h
      cases h
    | merged =>
      rw [on_merge_merged hp hs] at h
      cases h

theorem failure_reassign (hi : w.tables.Integrity) {id old : Identifier} {draws : Draws} {f : Failure}
    (h : ((Operation.reassign id old draws).on w).1 = .error f) :
    f.IsAmong [.pullRequestNotFound, .pullRequestMerged, .reviewerNotAssigned, .noCandidate] := by
  cases hp : w.tables.pullRequests.find? id with
  | none =>
    rw [on_reassign_unknown hp] at h
    cases h
    exact ⟨_, rfl, .head _⟩
  | some p =>
    obtain rfl : p.id = id := hi.pullRequestKeys id p hp
    cases hs : p.status with
    | merged =>
      rw [on_reassign_merged hp hs] at h
      cases h
      exact ⟨_, rfl, .tail _ (.head _)⟩
    | opened =>
      by_cases hold : (p.id, old) ∈ w.tables.reviewers
      · obtain ⟨author, ha⟩ := hi.authors _ p hp
        by_cases hnone : w.tables.substitutes p author old = []
        · rw [on_reassign_noCandidate hp hs hold ha hnone] at h
          cases h
          exact ⟨_, rfl, .tail _ (.tail _ (.tail _ (.head _)))⟩
        · obtain ⟨new, hn, hdraw⟩ := Selection.exists_replacement hnone draws
          rw [on_reassign_replaced hi.unambiguous hp hs hold ha hn hdraw] at h
          cases h
      · rw [on_reassign_notAssigned hp hs hold] at h
        cases h
        exact ⟨_, rfl, .tail _ (.tail _ (.head _))⟩

/-- **A command fails only by one of its refusals.** -/
theorem isAmong_refusals (hi : w.tables.Integrity) {c : Command} (hp : c.Proper w) {f : Failure}
    (h : (c.program.on w).1 = .error f) : f.IsAmong c.refusals := by
  cases c with
  | createTeam draft => exact failure_createTeam hi hp h
  | setActive id isActive => exact failure_setActive hi h
  | openPullRequest id name authorId draws limit => exact failure_openPullRequest hi h
  | merge id => exact failure_merge hi h
  | reassign id old draws => exact failure_reassign hi h

end Command

namespace Program

open StoreCall (putOr)

variable {w : World}

/-- A team is found, or it is not. -/
theorem failure_team {name : String} {f : Failure} (h : ((Operation.team name).on w).1 = .error f) :
    f.IsAmong [.teamNotFound] := by
  cases hname : w.tables.teamNamed? name with
  | none =>
    have hrun := StoreCall.run_teamNamed_of_none hname
    rw [Operation.team, on_bind_of_error (on_putOr_of_refused hrun rfl _)] at h
    cases h
    exact ⟨_, rfl, List.mem_singleton_self _⟩
  | some team =>
    have hrun := StoreCall.run_teamNamed hname
    rw [Operation.team, on_bind_of_ok (on_putOr_of_ok hrun _)] at h
    cases h

/-- Pull requests whose instants have one offset have an order. -/
theorem exists_assignedReviews {o : Int}
    (hoffset : ∀ k p, w.tables.pullRequests.find? k = some p → p.createdAt.offset = some o)
    (userId : Identifier) : ∃ prs, ((Operation.assignedReviews userId).on w).1 = .ok prs := by
  have hdated : w.tables.Datable := by
    intro j k p q hp hq
    rw [Instant.comparable, hoffset j p hp, hoffset k q hq]
    rfl
  have horder := hdated.haveOrder (w.tables.reviewers.reviewedBy userId)
  rw [on_assignedReviews, Operation.summaries, if_pos horder]
  exact ⟨_, rfl⟩

end Program

end ReviewRota
