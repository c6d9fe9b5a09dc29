import ReviewRota.Proofs.Changes
import ReviewRota.Proofs.History

/-!
# The number of reviewers

A pull request gets two reviewers, or as many as the author's team can spare, and keeps that number
for ever. The number is settled by the tables that the creating call finds; afterwards reviewers
only make room for one another.
-/

namespace ReviewRota

namespace Tables

/-- The active users of an author's team without the author. -/
def activeTeammates (authorId : Identifier) (t : Tables) : List User :=
  match t.users.find? authorId with
  | some author => t.users.values.filter fun u =>
      u.isActive && u.teamId = author.teamId && u.id ≠ authorId
  | none => []

variable {t : Tables}

theorem length_pool {author : User} (h : t.users.find? author.id = some author) :
    (t.pool author).length = (t.activeTeammates author.id).length := by
  have hperm := (usersOfTeam_perm author.teamId t).filter
    fun u => u.isActive && !([author.id].contains u.id)
  rw [pool, Selection.eligible, List.length_map, hperm.length_eq, List.filter_filter,
    activeTeammates, h]
  refine congrArg List.length (List.filter_congr fun u _ => ?_)
  simp only [List.contains_cons, List.contains_nil, Bool.or_false, ne_eq, decide_not,
    beq_eq_decide]
  rw [Bool.and_assoc, Bool.and_assoc, Bool.and_comm (!_)]

end Tables

/-- What a pull request starts with. -/
theorem Program.reviewers_of_opened {w w' : World} (hi : w.tables.Integrity)
    {id authorId : Identifier} {name : String} {draws : Draws} {review : Review}
    (h : (Operation.openPullRequest id name authorId draws usualReviewers).on w =
      (.ok review, w')) :
    (∃ p, w'.tables.pullRequests.find? id = some p) ∧
      (w'.tables.reviewers.reviewersOf id).length =
        min 2 (w.tables.activeTeammates authorId).length := by
  cases ha : w.tables.users.find? authorId with
  | none =>
    rw [on_openPullRequest_noAuthor ha] at h
    cases h
  | some author =>
    obtain rfl : author.id = authorId := hi.userKeys authorId author ha
    cases hp : w.tables.pullRequests.find? id with
    | some p =>
      rw [on_openPullRequest_exists ha hp] at h
      cases h
    | none =>
      rw [on_openPullRequest_new hi.coherent ha hp] at h
      cases h
      have hdrawn := Selection.nodup_reviewers (hi.unambiguous.nodup_pool author) usualReviewers draws
      constructor
      · exact ⟨_, (Tables.find?_addPullRequest _ _ _).trans (if_pos rfl)⟩
      · have hperm := hi.reviewersOf_addPullRequest
          (p := .opening id name author.id w.supply.readClock.1) hp hdrawn
        have hlength : (Selection.reviewers (w.tables.pool author) usualReviewers draws).length =
            min 2 (w.tables.pool author).length :=
          Selection.length_reviewers (by decide) _ draws
        rw [← Tables.length_pool ha]
        exact hperm.length_eq.trans hlength

namespace History

open Call (founding opening)

variable {name : String} {t t' : Tables} {ks : List Call}

/-- Along a history a stored pull request keeps the number of its reviewers. -/
theorem length_reviewersOf (h : History name t ks t') (hi : t.Integrity) {k : Identifier}
    {p : PullRequest} (hp : t.pullRequests.find? k = some p) :
    (t'.reviewers.reviewersOf k).length = (t.reviewers.reviewersOf k).length := by
  have key := h.preserves (P := fun u => (∃ q, u.pullRequests.find? k = some q) ∧
    (u.reviewers.reviewersOf k).length = (t.reviewers.reviewersOf k).length) hi ⟨⟨p, hp⟩, rfl⟩ ?_
  · exact key.2
  · rintro now u v - hc ⟨⟨q, hq⟩, hlen⟩
    obtain ⟨r, hr, -⟩ := hc.exists_sameOrigin hq
    exact ⟨⟨r, hr⟩, (hc.length_reviewersOf hq).trans hlen⟩

/-- **A pull request keeps the number of reviewers that it was given**, which is two or, in a small
team, the number of the active teammates that its author had at that moment. -/
theorem number_of_reviewers {ks' : List Call} {t₁ t₂ : Tables} {s s' : Session}
    {id authorId : Identifier} {title : String} {draws : Draws} {supply : Supply} {review : Review}
    (past : History name .empty ks t) (before : s.Finds name t)
    (made : (Call.make name
      ⟨.openPullRequest id title authorId draws usualReviewers, supply⟩).run s =
        some (.ok review, s'))
    (after : s'.Finds name t₁) (later : History name t₁ ks' t₂) :
    (t₂.reviewers.reviewersOf id).length = min 2 (t.activeTeammates authorId).length := by
  have hi := past.integrity Tables.integrity_empty
  have hp : Call.Proper ⟨.openPullRequest id title authorId draws usualReviewers, supply⟩ t := rfl
  have hi₁ := (past.call before hp made after).integrity Tables.integrity_empty
  obtain ⟨hanswer, rfl⟩ := Call.eq_of_made before hi hp made after
  obtain ⟨⟨p, hstored⟩, hlen⟩ := Program.reviewers_of_opened (w := ⟨t, supply⟩) hi
    (Prod.ext hanswer.symm rfl)
  exact (later.length_reviewersOf hi₁ hstored).trans hlen

/-- A user leaves for a while. -/
def leaving : Call := ⟨.setActive (.ofNat 2) false, default⟩

theorem number_of_reviewers_after_leaving :
    ∃ (s s' : Session) (review : Review) (t : Tables), s.Finds "rota" (founding.after .empty) ∧
      (opening.make "rota").run s = some (.ok review, s') ∧ s'.Finds "rota" t ∧
      History "rota" t [leaving] (leaving.after t) ∧
      ((leaving.after t).reviewers.reviewersOf (.ofNat 7)).length = 1 := by
  have past := history_founding "rota"
  have before := Session.rests_holding "rota" (founding.after .empty) default
  have hp : opening.Proper (founding.after .empty) := rfl
  obtain ⟨review, p, hanswer, -⟩ := exists_opening
  obtain ⟨s', made, after⟩ := Call.make_finds (.rests before) integrity_founding hp
  have hi := (past.call (.rests before) hp made after).integrity Tables.integrity_empty
  have later : History "rota" (opening.after (founding.after .empty)) [leaving] _ :=
    History.start.extend hi trivial
  rw [hanswer] at made
  have hlength := number_of_reviewers past (.rests before) made after later
  exact ⟨_, s', review, _, .rests before, made, after, later, hlength⟩

end History

end ReviewRota
