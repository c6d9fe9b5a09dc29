import ReviewRota.Proofs.Unambiguous

/-!
# Coherent tables

The part of the good order of tables that every single request keeps, whoever makes it: tables are
unambiguous, the author of a stored pull request is stored, and a pair leads to a pull request and a
user that are stored. Users and pull requests are changed and moved but never taken out, so what
leads to one of them leads to one of them for ever.
-/

namespace ReviewRota

namespace Tables

/-- Nothing is ambiguous, and authors and pairs lead somewhere. -/
structure Coherent (t : Tables) : Prop where
  unambiguous : t.Unambiguous
  authors : ∀ k p, t.pullRequests.find? k = some p → ∃ u, t.users.find? p.authorId = some u
  pairs : ∀ p u, (p, u) ∈ t.reviewers →
    (∃ pr, t.pullRequests.find? p = some pr) ∧ ∃ user, t.users.find? u = some user

theorem Integrity.coherent {t : Tables} (h : t.Integrity) : t.Coherent :=
  ⟨h.unambiguous, h.authors, h.pairs⟩

theorem coherent_empty : Coherent empty := integrity_empty.coherent

namespace Coherent

variable {t t' : Tables}

theorem not_mem_of_unknown (h : t.Coherent) {k : Identifier}
    (unknown : t.pullRequests.find? k = none) (u : Identifier) : (k, u) ∉ t.reviewers :=
  t.not_mem_of_unpaired h.pairs unknown u

theorem putTeam (h : t.Coherent) {team : Team} (unnamed : t.teamNamed? team.name = none) :
    (t.putTeam team).Coherent :=
  ⟨h.unambiguous.putTeam unnamed, h.authors, h.pairs⟩

theorem putUser (h : t.Coherent) {u : User} (free : t.usernameTaken u = false) :
    (t.putUser u).Coherent := by
  have hstay : ∀ k, (∃ v, t.users.find? k = some v) → ∃ v, (t.putUser u).users.find? k = some v := by
    rintro k ⟨v, hv⟩
    rw [find?_putUser]
    split
    · exact ⟨u, rfl⟩
    · exact ⟨v, hv⟩
  refine ⟨h.unambiguous.putUser free, ?_, ?_⟩
  · intro k p hp
    exact hstay _ (h.authors k p hp)
  · intro p v hm
    exact (h.pairs p v hm).imp_right (hstay v)

theorem putPullRequest (h : t.Coherent) {p : PullRequest} {author : User}
    (author : t.users.find? p.authorId = some author) : (t.putPullRequest p).Coherent := by
  refine ⟨h.unambiguous.putPullRequest p, ?_, ?_⟩
  · intro k q hq
    rw [find?_putPullRequest] at hq
    split at hq
    · cases hq
      exact ⟨_, author⟩
    · exact h.authors k q hq
  · intro k v hm
    refine (h.pairs k v hm).imp_left ?_
    rintro ⟨q, hq⟩
    rw [find?_putPullRequest]
    split
    · exact ⟨p, rfl⟩
    · exact ⟨q, hq⟩

theorem withReviewers (h : t.Coherent) {ps : Pairs}
    (pairs : ∀ p u, (p, u) ∈ ps → (∃ pr, t.pullRequests.find? p = some pr) ∧
      ∃ user, t.users.find? u = some user) : Coherent { t with reviewers := ps } :=
  ⟨h.unambiguous.withReviewers ps, h.authors, pairs⟩

/-- Whatever a request does to tables keeps them coherent. -/
theorem edit (h : t.Coherent) (edit : t.Edit t') : t'.Coherent := by
  cases edit with
  | kept => exact h
  | team unnamed => exact h.putTeam unnamed
  | user free => exact h.putUser free
  | opened author => exact h.putPullRequest author
  | @merged p known now =>
    -- a merge leaves the author as he was
    obtain ⟨author, ha⟩ := h.authors p.id p known
    exact h.putPullRequest (p := p.mergedOn now) ha
  | @paired p u pr user known huser =>
    refine h.withReviewers fun q v hm => ?_
    rcases Pairs.mem_insert.mp hm with he | hm
    · obtain ⟨rfl, rfl⟩ := Prod.mk.inj he
      exact ⟨⟨pr, known⟩, ⟨user, huser⟩⟩
    · exact h.pairs q v hm
  | unpaired p u =>
    refine h.withReviewers fun q v hm => ?_
    exact h.pairs q v (Pairs.mem_erase.mp hm).2

/-- Every request keeps tables coherent, whether it is refused or not. -/
theorem run {w : World} (h : w.tables.Coherent) (q : StoreCall) : (q.run w).2.tables.Coherent :=
  h.edit (StoreCall.edit_run h.unambiguous q)

end Coherent

end Tables

end ReviewRota
