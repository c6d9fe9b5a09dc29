import ReviewRota.Proofs.Integrity

/-!
# What changes leave alone

No change takes a pull request away, moves its origin or alters the number of its reviewers, and
a merged pull request is out of reach of all changes: it stays as it is, with the reviewers that
it has. Which change it is does not matter later on, so each fact is proved once for all of them.
-/

namespace ReviewRota

/-- What is settled about a pull request when it is created. -/
def PullRequest.SameOrigin (p q : PullRequest) : Prop :=
  q.id = p.id ∧ q.name = p.name ∧ q.authorId = p.authorId ∧ q.createdAt = p.createdAt

namespace PullRequest.SameOrigin

theorem refl (p : PullRequest) : p.SameOrigin p := ⟨rfl, rfl, rfl, rfl⟩

theorem trans {p q r : PullRequest} (h : p.SameOrigin q) (h' : q.SameOrigin r) :
    p.SameOrigin r := by
  obtain ⟨hid, hname, hauthor, hcreated⟩ := h
  obtain ⟨hid', hname', hauthor', hcreated'⟩ := h'
  exact ⟨hid'.trans hid, hname'.trans hname, hauthor'.trans hauthor, hcreated'.trans hcreated⟩

end PullRequest.SameOrigin

namespace Tables.Change

variable {t t' : Tables} {now : Instant} {k : Identifier} {p : PullRequest}

/-- A pull request that is stored keeps its place and its origin. -/
theorem exists_sameOrigin (hc : Change now t t') (hp : t.pullRequests.find? k = some p) :
    ∃ q, t'.pullRequests.find? k = some q ∧ p.SameOrigin q := by
  cases hc with
  | team | activity | replacement => exact ⟨p, hp, .refl p⟩
  | @pullRequest new author reviewers unknown =>
    have hk := Ledger.ne_of_find? hp unknown
    exact ⟨p, by rwa [find?_addPullRequest, if_neg hk], .refl p⟩
  | @merge q known opened =>
    by_cases hk : k = q.id
    · subst hk
      rw [known] at hp
      cases hp
      refine ⟨p.mergedOn now, ?_, rfl, rfl, rfl, rfl⟩
      rw [find?_putPullRequest]
      exact if_pos rfl
    · refine ⟨p, ?_, .refl p⟩
      rw [find?_putPullRequest]
      exact (if_neg hk).trans hp

/-- A pull request that is stored keeps the number of its reviewers. -/
theorem length_reviewersOf (hc : Change now t t') (hp : t.pullRequests.find? k = some p) :
    (t'.reviewers.reviewersOf k).length = (t.reviewers.reviewersOf k).length := by
  cases hc with
  | team | activity | merge => rfl
  | @pullRequest new author reviewers unknown =>
    have hk := Ledger.ne_of_find? hp unknown
    rw [reviewersOf_addPullRequest_of_ne hk]
  | replacement known opened assigned free =>
    exact length_reviewersOf_replaceReviewer assigned free k

/-- A pull request is as it was before, or it is new, or it has just been merged. -/
theorem origin (hc : Change now t t') (hp : t'.pullRequests.find? k = some p) :
    t.pullRequests.find? k = some p ∨ (p.createdAt = now ∧ p.status = .opened) ∨
      ∃ q, t.pullRequests.find? k = some q ∧ p = q.mergedOn now := by
  cases hc with
  | team | activity | replacement => exact Or.inl hp
  | @pullRequest new author reviewers unknown stamped =>
    rw [find?_addPullRequest] at hp
    split at hp
    · cases hp
      exact Or.inr (Or.inl ⟨stamped.2.1, stamped.1⟩)
    · exact Or.inl hp
  | @merge q known opened =>
    rw [find?_putPullRequest] at hp
    split at hp
    · rename_i hk
      cases hp
      exact Or.inr (Or.inr ⟨q, hk ▸ known, rfl⟩)
    · exact Or.inl hp

/-- A merged pull request and its reviewers stay as they are. -/
theorem frozen (hc : Change now t t') (hp : t.pullRequests.find? k = some p)
    (hm : p.status = .merged) : t'.pullRequests.find? k = some p ∧
      t'.reviewers.reviewersOf k = t.reviewers.reviewersOf k := by
  -- the changes that could touch it, a merge and a replacement, need an open pull request
  have hother : ∀ {q : PullRequest}, t.pullRequests.find? q.id = some q → q.status = .opened →
      k ≠ q.id := by
    rintro q known opened rfl
    rw [known] at hp
    cases hp
    rw [opened] at hm
    cases hm
  cases hc with
  | team | activity => exact ⟨hp, rfl⟩
  | @pullRequest new author reviewers unknown =>
    have hk := Ledger.ne_of_find? hp unknown
    exact ⟨by rwa [find?_addPullRequest, if_neg hk], reviewersOf_addPullRequest_of_ne hk _⟩
  | @merge q known opened =>
    refine ⟨?_, rfl⟩
    rw [find?_putPullRequest]
    exact (if_neg (hother known opened)).trans hp
  | replacement known opened =>
    exact ⟨hp, reviewersOf_replaceReviewer_of_ne (hother known opened) _ _⟩

end Tables.Change

end ReviewRota
