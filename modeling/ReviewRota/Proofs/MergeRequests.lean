import ReviewRota.Proofs.History

/-!
# Requests to merge

A request to merge is served in two steps: a command that merges, and a separate query for the
pull request with its reviewers. Between the two, other calls can be made. The desk below puts any
session in which such calls ended in the place of the one that the command left.
-/

namespace ReviewRota

open Http

/-- A request to merge a pull request. -/
structure Http.Request.Merges (id : Identifier) (r : Request) : Prop where
  method : r.method = Endpoint.mergePullRequest.method
  path : r.path = Endpoint.mergePullRequest.path
  body : readBody MergeDraft.ofJson r = .value ⟨id⟩

/-- A request to merge the pull request with the number 7. -/
def Http.Request.seventh : Request where
  method := "POST"
  path := "/pullRequest/merge"
  body := .document (.object
    [("pull_request_id", .text "00000000-0000-0000-0000-000000000007")])

theorem Http.Request.merges_seventh : seventh.Merges (.ofNat 7) := ⟨rfl, rfl, rfl⟩

/-- The answer that shows a pull request with its reviewers. -/
def Review.response (r : Review) : Response := .of 200 (.object [("pr", r.answer)])

/-- Merging as a call. -/
def Call.merging (id : Identifier) (supply : Supply) : Call := ⟨.merge id, supply⟩

namespace Program

/-- Merging a stored pull request goes well, and it is merged then. -/
theorem on_merge {w : World} (hi : w.tables.Integrity) {id : Identifier} {p : PullRequest}
    (hp : w.tables.pullRequests.find? id = some p) :
    ∃ q w', (Operation.merge id).on w = (.ok q, w') ∧ q.status = .merged ∧
      w'.tables.pullRequests.find? id = some q := by
  obtain rfl : p.id = id := hi.pullRequestKeys id p hp
  cases hs : p.status with
  | opened =>
    refine ⟨_, _, on_merge_opened hp hs, rfl, ?_⟩
    rw [Tables.find?_putPullRequest]
    exact if_pos rfl
  | merged => exact ⟨p, w, on_merge_merged hp hs, hs, hp⟩

/-- What merging answers is stored. -/
theorem find?_merged {w : World} (hi : w.tables.Integrity) {id : Identifier} {q : PullRequest}
    (h : ((Operation.merge id).on w).1 = .ok q) :
    ((Operation.merge id).on w).2.tables.pullRequests.find? id = some q := by
  cases hp : w.tables.pullRequests.find? id with
  | none =>
    rw [on_merge_unknown hp] at h
    cases h
  | some p =>
    obtain ⟨q', w', hmerge, -, hq⟩ := on_merge hi hp
    rw [hmerge] at h ⊢
    cases h
    exact hq

/-- Merging what is merged changes nothing. -/
theorem after_merging {t : Tables} {id : Identifier} {p : PullRequest}
    (hp : t.pullRequests.find? id = some p) (hm : p.status = .merged) (supply : Supply) :
    (Call.merging id supply).after t = t :=
  congrArg (fun o => o.2.tables) (on_merge_merged (w := ⟨t, supply⟩) hp hm)

end Program

namespace Course

/-- A desk where other calls come before a query, so that it is made in another session. -/
def deskMeanwhile (name : String) (s : Session) : Desk Course :=
  { desk name with query := fun q => do
      set s
      query name q }

variable {name : String} {t t₁ : Tables} {s s₁ s₂ : Session} {id : Identifier} {r : Request}

/-- A request to merge is answered with what its query finds. -/
theorem serveAny_merge (hr : r.Merges id) {desk : Desk Course} {p : PullRequest}
    {review : Review} (hcommand : (desk.command (.merge id)).run s = some (.ok p, s₁))
    (hquery : (desk.query (.review p.id)).run s₁ = some (.ok review, s₂)) :
    (serveAny desk r).run s = some (review.response, s₂) := by
  have hdestination : destination r.method r.path = .endpoint .mergePullRequest := by
    rw [hr.method, hr.path]
    decide
  have hmethod : r.method ≠ "HEAD" := by
    rw [hr.method]
    decide
  simp only [serveAny, serve, hdestination, serveAt, hr.body, answerReading, if_neg hmethod,
    answerOutcome, StateT.run_bind, hcommand, hquery, Option.bind_eq_bind, Option.bind_some]
  rfl

theorem query_review (hs : s.Rests name t) {p : PullRequest}
    (hp : t.pullRequests.find? p.id = some p) :
    ∃ s', (query name (.review p.id)).run s =
      some (.ok ⟨p, t.reviewers.reviewersOf p.id⟩, s') := by
  obtain ⟨s', hrun⟩ := query_rests hs (.review p.id)
  have hreview : (Query.review p.id).program.on ⟨t, s.supply⟩ = _ := Program.on_review hp
  rw [hreview] at hrun
  exact ⟨s', hrun⟩

/-- The command of a request to merge. -/
theorem command_merge (hs : s.Rests name t) (hi : t.Integrity) {p : PullRequest}
    (hp : t.pullRequests.find? id = some p) :
    ∃ q s', (command name (.merge id)).run s = some (.ok q, s') ∧
      s'.Rests name ((Call.merging id s.supply).after t) ∧ q.status = .merged ∧
      ((Call.merging id s.supply).after t).pullRequests.find? id = some q := by
  obtain ⟨q, w', hmerge, hm, hq⟩ := Program.on_merge (w := ⟨t, s.supply⟩) hi hp
  have hon : (Command.merge id).program.on ⟨t, s.supply⟩ = _ := hmerge
  obtain ⟨s', hrun, hs'⟩ := command_rests (c := .merge id) hs hi trivial
  have hafter : (Call.merging id s.supply).after t = w'.tables :=
    congrArg (fun o => o.2.tables) hmerge
  rw [hon] at hrun hs'
  rw [hafter]
  exact ⟨q, s', hrun, hs', hm, hq⟩

end Course

end ReviewRota
