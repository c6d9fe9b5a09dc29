import ReviewRota.Proofs.Changes
import ReviewRota.Proofs.MergeRequests

/-!
# The life of a pull request

Along a history a pull request is never lost, and its origin never changes. Once it is merged,
nothing about it changes any more, its reviewers included. That is why all requests to merge it are
answered alike, whatever happens between the two steps of serving them.
-/

namespace ReviewRota

open Call (merging founding opening)

variable {name : String} {t t' : Tables} {ks : List Call} {id : Identifier}

namespace History

theorem exists_sameOrigin (h : History name t ks t') (hi : t.Integrity) {p : PullRequest}
    (hp : t.pullRequests.find? id = some p) :
    ∃ q, t'.pullRequests.find? id = some q ∧ p.SameOrigin q := by
  apply h.preserves (P := fun u => ∃ q, u.pullRequests.find? id = some q ∧ p.SameOrigin q) hi
  · exact ⟨p, hp, .refl p⟩
  · rintro now u v - hc ⟨q, hq, hsame⟩
    obtain ⟨r, hr, hsame'⟩ := hc.exists_sameOrigin hq
    exact ⟨r, hr, hsame.trans hsame'⟩

/-- What is merged at some point of a history is out of reach from then on. -/
theorem frozen (h : History name t ks t') (hi : t.Integrity) {p : PullRequest}
    (hp : t.pullRequests.find? id = some p) (hm : p.status = .merged) :
    t'.pullRequests.find? id = some p ∧
      t'.reviewers.reviewersOf id = t.reviewers.reviewersOf id := by
  apply h.preserves (P := fun u => u.pullRequests.find? id = some p ∧
    u.reviewers.reviewersOf id = t.reviewers.reviewersOf id) hi
  · exact ⟨hp, rfl⟩
  · rintro now u v - hc ⟨hu, hsame⟩
    obtain ⟨hv, hsame'⟩ := hc.frozen hu hm
    exact ⟨hv, hsame'.trans hsame⟩

end History

/-! ## Times -/

/-- The first instant is not after the second, and the two can be compared. -/
def Instant.NotAfter (i j : Instant) : Prop := i.comparable j = true ∧ i.universal ≤ j.universal

/-- Pull requests bear readings of the clock, and none is merged before it was created. -/
def Tables.Timely (ks : List Call) (t : Tables) : Prop :=
  ∀ k p, t.pullRequests.find? k = some p → (∃ c ∈ ks, p.createdAt = c.reading) ∧
    (p.status = .merged → ∃ j, p.mergedAt = some j ∧ p.createdAt.NotAfter j)

namespace History

/-- A pull request was created at a reading of the clock. -/
theorem exists_reading (h : History name .empty ks t) {k : Identifier} {p : PullRequest}
    (hp : t.pullRequests.find? k = some p) : ∃ c ∈ ks, p.createdAt = c.reading := by
  induction h generalizing p with
  | start => simp [Tables.empty] at hp
  | @call ks t₁ t₂ c s s' r past before proper made after ih =>
    have hkept : ∀ {q}, t₁.pullRequests.find? k = some q →
        ∃ c' ∈ ks ++ [c], q.createdAt = c'.reading := by
      intro q hq
      obtain ⟨c', hc', hreading⟩ := ih hq
      exact ⟨c', List.mem_append_left _ hc', hreading⟩
    have hi := past.integrity Tables.integrity_empty
    rcases Call.eq_or_change_of_made before hi proper made after with rfl | hc
    · exact hkept hp
    · rcases hc.origin hp with hp | ⟨hcreated, -⟩ | ⟨q, hq, rfl⟩
      · exact hkept hp
      · exact ⟨c, List.mem_append_right _ List.mem_cons_self, hcreated⟩
      · -- a merge does not touch the time of the creation
        have hreading := hkept hq
        exact hreading

theorem timely (h : History name .empty ks t)
    (hclock : ks.Pairwise fun j k => j.reading.NotAfter k.reading) : t.Timely ks := by
  -- the readings are settled already; the induction is about the merges
  refine fun k p hp => ⟨h.exists_reading hp, ?_⟩
  induction h generalizing p with
  | start => simp [Tables.empty] at hp
  | @call ks t₁ t₂ c s s' r past before proper made after ih =>
    obtain ⟨hpast, -, hlast⟩ := List.pairwise_append.mp hclock
    have hi := past.integrity Tables.integrity_empty
    rcases Call.eq_or_change_of_made before hi proper made after with rfl | hc
    · exact ih hpast p hp
    · rcases hc.origin hp with hp | ⟨-, hopened⟩ | ⟨q, hq, rfl⟩
      · exact ih hpast p hp
      · intro hm
        rw [hopened] at hm
        cases hm
      · intro _
        refine ⟨c.reading, rfl, ?_⟩
        obtain ⟨c', hc', hreading⟩ := past.exists_reading hq
        rw [PullRequest.mergedOn, hreading]
        exact hlast c' hc' c List.mem_cons_self

end History

/-! ## Answers to requests to merge -/

/-- All requests to merge a pull request that reach a session have one answer: when they are
served without a break, and when calls are made between the merge and the query. -/
def Session.AnswersMerges (name : String) (t : Tables) (id : Identifier)
    (response : Http.Response) (s : Session) : Prop :=
  ∀ r : Http.Request, r.Merges id →
    (∃ s', (Http.serveAny (Course.desk name) r).run s = some (response, s')) ∧
    ∀ ks t₂ s₂, History name t (merging id s.supply :: ks) t₂ → s₂.Rests name t₂ →
      ∃ s', (Http.serveAny (Course.deskMeanwhile name s₂) r).run s = some (response, s')

variable {s : Session} {p : PullRequest}

/-- The answer shows the pull request as the merge left it, with the reviewers that it then had. -/
theorem Session.Rests.answersMerges (hs : s.Rests name t) (hi : t.Integrity)
    (hi' : ((merging id s.supply).after t).Integrity)
    (hp : ((merging id s.supply).after t).pullRequests.find? id = some p)
    (hm : p.status = .merged) (hstored : ∃ q, t.pullRequests.find? id = some q) :
    s.AnswersMerges name t id
      (Review.response ⟨p, ((merging id s.supply).after t).reviewers.reviewersOf id⟩) := by
  obtain ⟨q, hq⟩ := hstored
  obtain ⟨p', s₁, hcommand, hs₁, -, hp'⟩ := Course.command_merge hs hi hq
  rw [hp] at hp'
  cases hp'
  obtain rfl : p.id = id := hi'.pullRequestKeys id p hp
  intro r hr
  constructor
  · obtain ⟨s₂, hquery⟩ := Course.query_review hs₁ hp
    exact ⟨s₂, Course.serveAny_merge hr hcommand hquery⟩
  · intro ks t₂ s₂ h hs₂
    obtain ⟨hp₂, hreviewers⟩ := (h.of_cons hi).frozen hi' hp hm
    obtain ⟨s₃, hquery⟩ := Course.query_review hs₂ hp₂
    rw [hreviewers] at hquery
    exact ⟨s₃, Course.serveAny_merge hr hcommand hquery⟩

/-- **The life of a pull request.** It is never lost and keeps its origin; once merged, it keeps
everything, its reviewers included; all requests to merge it, from one at any point of the history
on, have one answer; and if the clock never goes backwards, it is not merged before it was
created. -/
theorem lifecycle (past : History name .empty ks t)
    (stored : t.pullRequests.find? id = some p) :
    (∀ ks' t', History name t ks' t' →
      ∃ q, t'.pullRequests.find? id = some q ∧ p.SameOrigin q ∧
        (p.status = .merged →
          q = p ∧ t'.reviewers.reviewersOf id = t.reviewers.reviewersOf id)) ∧
    (∀ s : Session, s.Rests name t → ∃ response, response.status = 200 ∧
      s.AnswersMerges name t id response ∧
      ∀ ks' t' (s' : Session), History name t (merging id s.supply :: ks') t' →
        s'.Rests name t' → s'.AnswersMerges name t' id response) ∧
    ((ks.Pairwise fun j k => j.reading.NotAfter k.reading) → p.status = .merged →
      ∃ j, p.mergedAt = some j ∧ p.createdAt.NotAfter j) := by
  have hi := past.integrity Tables.integrity_empty
  refine ⟨?_, ?_, ?_⟩
  · intro ks' t' h
    obtain ⟨q, hq, hsame⟩ := h.exists_sameOrigin hi stored
    refine ⟨q, hq, hsame, fun hm => ?_⟩
    obtain ⟨hp, hreviewers⟩ := h.frozen hi stored hm
    rw [hp] at hq
    cases hq
    exact ⟨rfl, hreviewers⟩
  · intro s hs
    obtain ⟨q, s₁, -, -, hm, hq⟩ := Course.command_merge hs hi stored
    have hmade : History name t [merging id s.supply] ((merging id s.supply).after t) :=
      History.start.extend hi trivial
    have hi' := hmade.integrity hi
    refine ⟨_, rfl, hs.answersMerges hi hi' hq hm ⟨p, stored⟩, ?_⟩
    intro ks' t' s' h hs'
    have hi'' := h.integrity hi
    obtain ⟨hq', hreviewers⟩ := (h.of_cons hi).frozen hi' hq hm
    have hkept := Program.after_merging hq' hm s'.supply
    rw [← hkept] at hi'' hq' hreviewers
    rw [← hreviewers]
    exact hs'.answersMerges (h.integrity hi) hi'' hq' hm ⟨q, hkept ▸ hq'⟩
  · exact fun hclock => (past.timely hclock id p stored).2

theorem lifecycle_after_opening :
    ∃ (t : Tables) (p : PullRequest) (response : Http.Response) (s : Session),
      History "rota" .empty [founding, opening] t ∧ t.pullRequests.find? (.ofNat 7) = some p ∧
      response.status = 200 ∧
      (Http.serveAny (Course.desk "rota") .seventh).run (.holding "rota" t default) =
        some (response, s) := by
  have past : History "rota" .empty [founding, opening] _ :=
    (History.history_founding "rota").extend History.integrity_founding rfl
  obtain ⟨-, p, -, stored⟩ := History.exists_opening
  obtain ⟨-, hmerges, -⟩ := lifecycle past stored
  obtain ⟨response, hstatus, hanswers, -⟩ := hmerges _ (Session.rests_holding "rota" _ default)
  obtain ⟨⟨s, hserved⟩, -⟩ := hanswers .seventh Http.Request.merges_seventh
  exact ⟨_, p, response, s, past, stored, hstatus, hserved⟩

end ReviewRota
