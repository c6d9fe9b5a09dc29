import Mathlib.Data.List.Sort
import ReviewRota.Proofs.Outcome

/-!
# Candidates

Who can review a pull request, and who can take the place of a reviewer, said of single users
without the lists that the service makes. Usernames tell the users of a team apart, so there is one
list of the candidates by username, and it is the one that reviewers are drawn from.
-/

namespace ReviewRota

/-- A list of all users of some description, by username. -/
structure Roll (fits : User → Prop) (us : List User) : Prop where
  mem : ∀ u, u ∈ us ↔ fits u
  sorted : us.Pairwise fun a b => a.username < b.username

/-- There are no two such lists. -/
theorem Roll.unique {fits fits' : User → Prop} {us vs : List User} (hu : Roll fits us)
    (hv : Roll fits' vs) (same : ∀ u, fits u ↔ fits' u) : us = vs := by
  have hirrefl : Std.Irrefl fun a b : User => a.username < b.username :=
    ⟨fun a => String.lt_irrefl a.username⟩
  have hantisymm : Std.Antisymm fun a b : User => a.username < b.username :=
    ⟨fun a b hab hba => absurd hba (String.lt_asymm hab)⟩
  refine hu.sorted.eq_of_mem_iff hv.sorted fun u => ?_
  rw [hu.mem, hv.mem, same]

namespace Tables

/-- A user who can review what an author creates: one who is active and, as things are now, in the
team of the author, and is not the author. -/
structure Candidate (t : Tables) (authorId : Identifier) (u : User) : Prop where
  stored : t.users.find? u.id = some u
  active : u.isActive = true
  teammate : ∃ author, t.users.find? authorId = some author ∧ u.teamId = author.teamId
  notAuthor : u.id ≠ authorId

/-- A user who can take the place of a reviewer of a pull request. -/
structure Substitute (t : Tables) (p : PullRequest) (old : Identifier) (u : User) : Prop
    extends t.Candidate p.authorId u where
  other : u.id ≠ old
  free : (p.id, u.id) ∉ t.reviewers

namespace Unambiguous

variable {t : Tables}

theorem usersOfTeam_sorted (h : t.Unambiguous) (teamId : Identifier) :
    (t.usersOfTeam teamId).Pairwise fun a b => a.username < b.username := by
  have hboth := (t.usersOfTeam_sorted teamId).and (h.nodup_usersOfTeam teamId)
  refine hboth.imp_of_mem ?_
  rintro a b ha hb ⟨hle, hne⟩
  -- two users of one username would be the same user
  by_contra hlt
  obtain ⟨hfa, hta⟩ := h.mem_usersOfTeam.mp ha
  obtain ⟨hfb, htb⟩ := h.mem_usersOfTeam.mp hb
  have hname := String.le_antisymm hle (String.not_lt.mp hlt)
  exact hne (h.user_unique hfa hfb (hta.trans htb.symm) hname)

/-- The eligible users of a team are listed by username. -/
theorem exists_roll (h : t.Unambiguous) {teamId : Identifier} {exclude : List Identifier}
    {fits : User → Prop} (hfits : ∀ u, fits u ↔ t.users.find? u.id = some u ∧ u.teamId = teamId ∧
      u.isActive = true ∧ u.id ∉ exclude) :
    ∃ us, Roll fits us ∧ us.map User.id = Selection.eligible (t.usersOfTeam teamId) exclude := by
  refine ⟨(t.usersOfTeam teamId).filter fun u => u.isActive && !exclude.contains u.id, ⟨?_, ?_⟩, rfl⟩
  · intro u
    rw [List.mem_filter, h.mem_usersOfTeam, hfits]
    simp only [Bool.and_eq_true, Bool.not_eq_true', List.contains_eq_mem, decide_eq_false_iff_not,
      and_assoc]
  · exact (h.usersOfTeam_sorted teamId).filter _

theorem exists_candidates (h : t.Unambiguous) {author : User}
    (known : t.users.find? author.id = some author) :
    ∃ us, Roll (t.Candidate author.id) us ∧ us.map User.id = t.pool author := by
  refine h.exists_roll fun u => ?_
  constructor
  · rintro ⟨hu, hactive, ⟨a, ha, hteam⟩, hne⟩
    rw [known] at ha
    cases ha
    exact ⟨hu, hteam, hactive, by simpa using hne⟩
  · rintro ⟨hu, hteam, hactive, hout⟩
    exact ⟨hu, hactive, ⟨author, known, hteam⟩, by simpa using hout⟩

theorem exists_substitutes (h : t.Unambiguous) {p : PullRequest} {author : User}
    (known : t.users.find? p.authorId = some author) (old : Identifier) :
    ∃ us, Roll (t.Substitute p old) us ∧ us.map User.id = t.substitutes p author old := by
  refine h.exists_roll fun u => ?_
  simp only [List.mem_cons, Pairs.mem_reviewersOf, not_or]
  constructor
  · rintro ⟨⟨hu, hactive, ⟨a, ha, hteam⟩, hne⟩, hother, hfree⟩
    rw [known] at ha
    cases ha
    exact ⟨hu, hteam, hactive, hne, hother, hfree⟩
  · rintro ⟨hu, hteam, hactive, hne, hother, hfree⟩
    exact ⟨⟨hu, hactive, ⟨author, known, hteam⟩, hne⟩, hother, hfree⟩

end Unambiguous

end Tables

end ReviewRota
