import ReviewRota.Proofs.Contents

/-!
# Integrity of the tables

Nothing in the tables dangles and nothing is ambiguous: references lead somewhere, names and
usernames tell teams and users apart, and a pull request has its merge time exactly when it is
merged. `Tables.Change` lists what a command that succeeds can do to tables, each kind of change
with everything that was checked before it; the main statement is that changes keep the integrity.
-/

namespace ReviewRota

/-- A pull request as it is after a merge at some instant. -/
def PullRequest.mergedOn (now : Instant) (p : PullRequest) : PullRequest :=
  { p with status := .merged, mergedAt := some now }

namespace Tables

/-- The tables with a team and its members put in. -/
def addTeam (team : Team) (members : List User) (t : Tables) : Tables :=
  { t with teams := t.teams.put team.id team, users := t.users.putAll User.id members }

/-- The tables with a pull request and its reviewers put in. -/
def addPullRequest (p : PullRequest) (reviewers : List Identifier) (t : Tables) : Tables :=
  { t.putPullRequest p with reviewers := t.reviewers.insertAll p.id reviewers }

/-- The tables with one reviewer of a pull request in the place of another. -/
def replaceReviewer (p old new : Identifier) (t : Tables) : Tables :=
  { t with reviewers := (t.reviewers.erase (p, old)).insert (p, new) }

/-- The good order of tables. -/
structure Integrity (t : Tables) : Prop where
  teamKeys : t.teams.Keyed Team.id
  userKeys : t.users.Keyed User.id
  pullRequestKeys : t.pullRequests.Keyed PullRequest.id
  /-- Teams differ in their names. -/
  teamNames : ∀ j k a b, t.teams.find? j = some a → t.teams.find? k = some b →
    a.name = b.name → j = k
  /-- The users of one team differ in their usernames. -/
  usernames : ∀ j k a b, t.users.find? j = some a → t.users.find? k = some b →
    a.teamId = b.teamId → a.username = b.username → j = k
  userTeams : ∀ k u, t.users.find? k = some u → ∃ team, t.teams.find? u.teamId = some team
  authors : ∀ k p, t.pullRequests.find? k = some p → ∃ u, t.users.find? p.authorId = some u
  pairs : ∀ p u, (p, u) ∈ t.reviewers →
    (∃ pr, t.pullRequests.find? p = some pr) ∧ ∃ user, t.users.find? u = some user
  mergeTimes : ∀ k p, t.pullRequests.find? k = some p →
    (p.status = .merged ↔ p.mergedAt.isSome = true)
  /-- Nobody reviews a pull request of his own. -/
  notAuthor : ∀ k p, t.pullRequests.find? k = some p → (k, p.authorId) ∉ t.reviewers
  atMostTwo : ∀ k, (t.reviewers.reviewersOf k).length ≤ 2

theorem integrity_empty : Integrity empty where
  teamKeys := Ledger.keyed_empty _
  userKeys := Ledger.keyed_empty _
  pullRequestKeys := Ledger.keyed_empty _
  teamNames := by
    intro j k a b ha
    simp [empty] at ha
  usernames := by
    intro j k a b ha
    simp [empty] at ha
  userTeams := by
    intro k u hu
    simp [empty] at hu
  authors := by
    intro k p hp
    simp [empty] at hp
  pairs := by
    intro p u h
    exact absurd h (Pairs.not_mem_empty _)
  mergeTimes := by
    intro k p hp
    simp [empty] at hp
  notAuthor := by
    intro k p _
    exact Pairs.not_mem_empty _
  atMostTwo := by
    intro k
    have hnone : (Pairs.empty.reviewersOf k).Perm [] :=
      Pairs.reviewersOf_perm List.nodup_nil (by simp)
    simp [empty, hnone.eq_nil]

/-- What a command can do to tables when the clock shows `now`. -/
inductive Change (now : Instant) (t : Tables) : Tables → Prop where
  | team {team : Team} {members : List User}
      (fresh : t.teams.find? team.id = none)
      (unnamed : t.teamNamed? team.name = none)
      (ids : (members.map User.id).Nodup)
      (usernames : (members.map User.username).Nodup)
      (placed : ∀ u ∈ members, u.teamId = team.id) :
      Change now t (t.addTeam team members)
  | activity {u : User} (known : t.users.find? u.id = some u) (isActive : Bool) :
      Change now t (t.putUser { u with isActive })
  | pullRequest {p : PullRequest} {author : User} {reviewers : List Identifier}
      (unknown : t.pullRequests.find? p.id = none)
      (stamped : p.status = .opened ∧ p.createdAt = now ∧ p.mergedAt = none)
      (author : t.users.find? p.authorId = some author)
      (distinct : reviewers.Nodup)
      (users : ∀ i ∈ reviewers, i ≠ p.authorId ∧ ∃ u, t.users.find? i = some u)
      (few : reviewers.length ≤ 2) :
      Change now t (t.addPullRequest p reviewers)
  | merge {p : PullRequest} (known : t.pullRequests.find? p.id = some p)
      (opened : p.status = .opened) :
      Change now t (t.putPullRequest (p.mergedOn now))
  | replacement {p : PullRequest} {old new : Identifier} {u : User}
      (known : t.pullRequests.find? p.id = some p)
      (opened : p.status = .opened)
      (assigned : (p.id, old) ∈ t.reviewers)
      (free : (p.id, new) ∉ t.reviewers)
      (user : t.users.find? new = some u)
      (notAuthor : new ≠ p.authorId) :
      Change now t (t.replaceReviewer p.id old new)

section Changes

variable {t : Tables}

theorem find?_teams_addTeam (team : Team) (members : List User) (k : Identifier) :
    (t.addTeam team members).teams.find? k =
      if k = team.id then some team else t.teams.find? k := by
  simp [addTeam]

theorem find?_users_addTeam {team : Team} {members : List User}
    (ids : (members.map User.id).Nodup) (k : Identifier) (u : User) :
    (t.addTeam team members).users.find? k = some u ↔
      (u ∈ members ∧ u.id = k) ∨ (k ∉ members.map User.id ∧ t.users.find? k = some u) :=
  Ledger.find?_putAll ids t.users k u

/-- Creating a team takes nobody away. -/
theorem exists_user_addTeam {team : Team} {members : List User}
    (ids : (members.map User.id).Nodup) {k : Identifier} {u : User}
    (h : t.users.find? k = some u) : ∃ v, (t.addTeam team members).users.find? k = some v := by
  by_cases hk : k ∈ members.map User.id
  · obtain ⟨v, hv, rfl⟩ := List.mem_map.mp hk
    exact ⟨v, (find?_users_addTeam ids _ _).mpr (Or.inl ⟨hv, rfl⟩)⟩
  · exact ⟨u, (find?_users_addTeam ids _ _).mpr (Or.inr ⟨hk, h⟩)⟩

theorem find?_putUser (u : User) (k : Identifier) :
    (t.putUser u).users.find? k = if k = u.id then some u else t.users.find? k := by
  simp [putUser]

theorem find?_putPullRequest (p : PullRequest) (k : Identifier) :
    (t.putPullRequest p).pullRequests.find? k =
      if k = p.id then some p else t.pullRequests.find? k := by
  simp [putPullRequest]

theorem find?_addPullRequest (p : PullRequest) (reviewers : List Identifier) (k : Identifier) :
    (t.addPullRequest p reviewers).pullRequests.find? k =
      if k = p.id then some p else t.pullRequests.find? k :=
  find?_putPullRequest p k

theorem mem_addPullRequest {p : PullRequest} {reviewers : List Identifier} {k u : Identifier} :
    (k, u) ∈ (t.addPullRequest p reviewers).reviewers ↔
      (k = p.id ∧ u ∈ reviewers) ∨ (k, u) ∈ t.reviewers := by
  simp [addPullRequest, Pairs.mem_insertAll]

theorem mem_replaceReviewer {p old new k u : Identifier} :
    (k, u) ∈ (t.replaceReviewer p old new).reviewers ↔
      (k = p ∧ u = new) ∨ ((k = p → u ≠ old) ∧ (k, u) ∈ t.reviewers) := by
  simp [replaceReviewer, Pairs.mem_insert, Pairs.mem_erase]

theorem reviewersOf_addPullRequest_of_ne {p : PullRequest} {k : Identifier} (hk : k ≠ p.id)
    (reviewers : List Identifier) :
    (t.addPullRequest p reviewers).reviewers.reviewersOf k = t.reviewers.reviewersOf k :=
  Pairs.reviewersOf_congr fun u => by simp [mem_addPullRequest, hk]

theorem reviewersOf_replaceReviewer_of_ne {p k : Identifier} (hk : k ≠ p)
    (old new : Identifier) :
    (t.replaceReviewer p old new).reviewers.reviewersOf k = t.reviewers.reviewersOf k :=
  Pairs.reviewersOf_congr fun u => by simp [mem_replaceReviewer, hk]

/-- One reviewer leaves and another one comes. -/
theorem reviewersOf_replaceReviewer_perm {p old new : Identifier}
    (free : (p, new) ∉ t.reviewers) :
    ((t.replaceReviewer p old new).reviewers.reviewersOf p).Perm
      (new :: (t.reviewers.reviewersOf p).erase old) := by
  have hset := Pairs.nodup_reviewersOf p t.reviewers
  have hnew : new ∉ (t.reviewers.reviewersOf p).erase old := by
    intro hm
    exact free (Pairs.mem_reviewersOf.mp (List.mem_of_mem_erase hm))
  have hnodup := List.nodup_cons.mpr ⟨hnew, hset.erase old⟩
  apply Pairs.reviewersOf_perm hnodup
  intro u
  rw [mem_replaceReviewer, List.mem_cons, hset.mem_erase_iff, Pairs.mem_reviewersOf]
  simp

/-- A replacement keeps the number of reviewers of every pull request. -/
theorem length_reviewersOf_replaceReviewer {p old new : Identifier}
    (assigned : (p, old) ∈ t.reviewers) (free : (p, new) ∉ t.reviewers) (k : Identifier) :
    ((t.replaceReviewer p old new).reviewers.reviewersOf k).length =
      (t.reviewers.reviewersOf k).length := by
  by_cases hk : k = p
  · subst hk
    have hold := Pairs.mem_reviewersOf.mpr assigned
    have hpos := List.length_pos_of_mem hold
    rw [(reviewersOf_replaceReviewer_perm free).length_eq, List.length_cons,
      List.length_erase_of_mem hold]
    omega
  · rw [reviewersOf_replaceReviewer_of_ne hk]

/-- A pull request that is not stored has no reviewers, since pairs lead to pull requests. -/
theorem not_mem_of_unpaired (t : Tables) (pairs : ∀ p u, (p, u) ∈ t.reviewers →
      (∃ pr, t.pullRequests.find? p = some pr) ∧ ∃ user, t.users.find? u = some user)
    {k : Identifier} (unknown : t.pullRequests.find? k = none) (u : Identifier) :
    (k, u) ∉ t.reviewers := by
  intro hm
  obtain ⟨⟨p, hp⟩, -⟩ := pairs k u hm
  rw [unknown] at hp
  cases hp

theorem Integrity.not_mem_of_unknown (h : t.Integrity) {k : Identifier}
    (unknown : t.pullRequests.find? k = none) (u : Identifier) : (k, u) ∉ t.reviewers :=
  t.not_mem_of_unpaired h.pairs unknown u

theorem Integrity.reviewersOf_addPullRequest (h : t.Integrity) {p : PullRequest}
    {reviewers : List Identifier} (unknown : t.pullRequests.find? p.id = none)
    (distinct : reviewers.Nodup) :
    ((t.addPullRequest p reviewers).reviewers.reviewersOf p.id).Perm reviewers := by
  apply Pairs.reviewersOf_perm distinct
  intro u
  have hnone := h.not_mem_of_unknown unknown u
  simp [mem_addPullRequest, hnone]

/-- No user stands under a team that is not there. -/
theorem Integrity.teamId_ne (h : t.Integrity) {id k : Identifier} {u : User}
    (fresh : t.teams.find? id = none) (hu : t.users.find? k = some u) : u.teamId ≠ id := by
  intro he
  obtain ⟨team, hteam⟩ := h.userTeams k u hu
  rw [he, fresh] at hteam
  cases hteam

theorem Integrity.addTeam (h : t.Integrity) {team : Team} {members : List User}
    (fresh : t.teams.find? team.id = none) (unnamed : t.teamNamed? team.name = none)
    (ids : (members.map User.id).Nodup) (usernames : (members.map User.username).Nodup)
    (placed : ∀ u ∈ members, u.teamId = team.id) : (t.addTeam team members).Integrity where
  teamKeys := h.teamKeys.put team
  userKeys := h.userKeys.putAll members
  pullRequestKeys := h.pullRequestKeys
  teamNames := by
    -- only a pair of the new team and an old one is of interest
    intro j k a b ha hb he
    have hothers := teamNamed?_eq_none.mp unnamed
    rw [find?_teams_addTeam] at ha hb
    split at ha <;> split at hb
    · rename_i hj hk
      exact hj.trans hk.symm
    · cases ha
      exact absurd he.symm (hothers k b hb)
    · cases hb
      exact absurd he (hothers j a ha)
    · exact h.teamNames j k a b ha hb he
  usernames := by
    -- nobody who is not a member stands under the new team, so members only meet members
    intro j k a b ha hb ht hu
    rw [find?_users_addTeam ids] at ha hb
    rcases ha with ⟨ha, rfl⟩ | ⟨-, ha⟩ <;> rcases hb with ⟨hb, rfl⟩ | ⟨-, hb⟩
    · rw [List.inj_on_of_nodup_map usernames ha hb hu]
    · exact absurd (ht.symm.trans (placed a ha)) (h.teamId_ne fresh hb)
    · exact absurd (ht.trans (placed b hb)) (h.teamId_ne fresh ha)
    · exact h.usernames j k a b ha hb ht hu
  userTeams := by
    intro k u hu
    rw [find?_users_addTeam ids] at hu
    rcases hu with ⟨hu, -⟩ | ⟨-, hu⟩
    · exact ⟨team, by rw [find?_teams_addTeam, if_pos (placed u hu)]⟩
    · obtain ⟨old, hold⟩ := h.userTeams k u hu
      exact ⟨old, by rwa [find?_teams_addTeam, if_neg (h.teamId_ne fresh hu)]⟩
  authors := by
    intro k p hp
    obtain ⟨u, hu⟩ := h.authors k p hp
    exact exists_user_addTeam ids hu
  pairs := by
    intro p u hm
    obtain ⟨hp, v, hv⟩ := h.pairs p u hm
    exact ⟨hp, exists_user_addTeam ids hv⟩
  mergeTimes := h.mergeTimes
  notAuthor := h.notAuthor
  atMostTwo := h.atMostTwo

/-- A user is put in the place of one with the same identifier, team and username. -/
theorem Integrity.putUser (h : t.Integrity) {u v : User} (known : t.users.find? u.id = some u)
    (hid : v.id = u.id) (hteam : v.teamId = u.teamId) (hname : v.username = u.username) :
    (t.putUser v).Integrity := by
  -- what identifies a user in his team is the same before and after
  have hsame : ∀ k w, (t.putUser v).users.find? k = some w →
      ∃ w', t.users.find? k = some w' ∧ w.teamId = w'.teamId ∧ w.username = w'.username := by
    intro k w hw
    rw [find?_putUser] at hw
    split at hw
    · rename_i hk
      cases hw
      exact ⟨u, by rwa [hk, hid], hteam, hname⟩
    · exact ⟨w, hw, rfl, rfl⟩
  have hstay : ∀ k, (∃ w, t.users.find? k = some w) →
      ∃ w, (t.putUser v).users.find? k = some w := by
    rintro k ⟨w, hw⟩
    rw [find?_putUser]
    split
    · exact ⟨v, rfl⟩
    · exact ⟨w, hw⟩
  refine ⟨h.teamKeys, h.userKeys.put v, h.pullRequestKeys, h.teamNames, ?_, ?_, ?_, ?_,
    h.mergeTimes, h.notAuthor, h.atMostTwo⟩
  · intro j k a b ha hb ht hu
    obtain ⟨a', ha', hta, hna⟩ := hsame j a ha
    obtain ⟨b', hb', htb, hnb⟩ := hsame k b hb
    have hteams : a'.teamId = b'.teamId := by rw [← hta, ← htb, ht]
    have hnames : a'.username = b'.username := by rw [← hna, ← hnb, hu]
    exact h.usernames j k a' b' ha' hb' hteams hnames
  · intro k w hw
    obtain ⟨w', hw', ht, -⟩ := hsame k w hw
    rw [ht]
    exact h.userTeams k w' hw'
  · intro k p hp
    have hauthor := h.authors k p hp
    exact hstay _ hauthor
  · intro p w hm
    obtain ⟨hp, hw⟩ := h.pairs p w hm
    exact ⟨hp, hstay _ hw⟩

theorem Integrity.addPullRequest (h : t.Integrity) {p : PullRequest} {author : User}
    {reviewers : List Identifier} (unknown : t.pullRequests.find? p.id = none)
    (opened : p.status = .opened) (undated : p.mergedAt = none)
    (hauthor : t.users.find? p.authorId = some author) (distinct : reviewers.Nodup)
    (users : ∀ i ∈ reviewers, i ≠ p.authorId ∧ ∃ u, t.users.find? i = some u)
    (few : reviewers.length ≤ 2) : (t.addPullRequest p reviewers).Integrity := by
  -- a pull request that is not stored has no pairs, so the new ones are all that it gets
  have hnone := h.not_mem_of_unknown unknown
  refine ⟨h.teamKeys, h.userKeys, h.pullRequestKeys.put p, h.teamNames, h.usernames, h.userTeams,
    ?_, ?_, ?_, ?_, ?_⟩
  · intro k q hq
    rw [find?_addPullRequest] at hq
    split at hq
    · cases hq
      exact ⟨author, hauthor⟩
    · exact h.authors k q hq
  · intro k u hm
    rw [find?_addPullRequest]
    rcases mem_addPullRequest.mp hm with ⟨rfl, hu⟩ | hm
    · exact ⟨⟨p, if_pos rfl⟩, (users u hu).2⟩
    · obtain ⟨⟨q, hq⟩, hu⟩ := h.pairs k u hm
      have hk : k ≠ p.id := fun he => hnone u (he ▸ hm)
      exact ⟨⟨q, by rwa [if_neg hk]⟩, hu⟩
  · intro k q hq
    rw [find?_addPullRequest] at hq
    split at hq
    · cases hq
      simp [opened, undated]
    · exact h.mergeTimes k q hq
  · intro k q hq hm
    rw [find?_addPullRequest] at hq
    rcases mem_addPullRequest.mp hm with ⟨rfl, hu⟩ | hm
    · rw [if_pos rfl] at hq
      cases hq
      exact (users _ hu).1 rfl
    · have hk : k ≠ p.id := fun he => hnone _ (he ▸ hm)
      rw [if_neg hk] at hq
      exact h.notAuthor k q hq hm
  · intro k
    by_cases hk : k = p.id
    · rw [hk, (h.reviewersOf_addPullRequest unknown distinct).length_eq]
      exact few
    · rw [reviewersOf_addPullRequest_of_ne hk]
      exact h.atMostTwo k

theorem Integrity.putMerged (h : t.Integrity) {p : PullRequest}
    (known : t.pullRequests.find? p.id = some p) (now : Instant) :
    (t.putPullRequest (p.mergedOn now)).Integrity := by
  have hsame : ∀ k q, (t.putPullRequest (p.mergedOn now)).pullRequests.find? k = some q →
      ∃ q', t.pullRequests.find? k = some q' ∧ q.authorId = q'.authorId := by
    intro k q hq
    rw [find?_putPullRequest] at hq
    split at hq
    · rename_i hk
      cases hq
      exact ⟨p, hk ▸ known, rfl⟩
    · exact ⟨q, hq, rfl⟩
  refine ⟨h.teamKeys, h.userKeys, h.pullRequestKeys.put (p.mergedOn now), h.teamNames, h.usernames,
    h.userTeams, ?_, ?_, ?_, ?_, h.atMostTwo⟩
  · intro k q hq
    obtain ⟨q', hq', ha⟩ := hsame k q hq
    rw [ha]
    exact h.authors k q' hq'
  · intro k u hm
    obtain ⟨⟨q, hq⟩, hu⟩ := h.pairs k u hm
    refine ⟨?_, hu⟩
    rw [find?_putPullRequest]
    split
    · exact ⟨_, rfl⟩
    · exact ⟨q, hq⟩
  · intro k q hq
    rw [find?_putPullRequest] at hq
    split at hq
    · cases hq
      simp [PullRequest.mergedOn]
    · exact h.mergeTimes k q hq
  · intro k q hq
    obtain ⟨q', hq', ha⟩ := hsame k q hq
    rw [ha]
    exact h.notAuthor k q' hq'

theorem Integrity.replaceReviewer (h : t.Integrity) {p : PullRequest} {old new : Identifier}
    {u : User} (known : t.pullRequests.find? p.id = some p) (assigned : (p.id, old) ∈ t.reviewers)
    (free : (p.id, new) ∉ t.reviewers) (huser : t.users.find? new = some u)
    (hauthor : new ≠ p.authorId) : (t.replaceReviewer p.id old new).Integrity := by
  refine ⟨h.teamKeys, h.userKeys, h.pullRequestKeys, h.teamNames, h.usernames, h.userTeams,
    h.authors, ?_, h.mergeTimes, ?_, ?_⟩
  · intro k v hm
    rcases mem_replaceReviewer.mp hm with ⟨rfl, rfl⟩ | ⟨-, hm⟩
    · exact ⟨⟨p, known⟩, u, huser⟩
    · exact h.pairs k v hm
  · intro k q hq hm
    rcases mem_replaceReviewer.mp hm with ⟨rfl, he⟩ | ⟨-, hm⟩
    · have hpq : q = p := Option.some.inj (hq.symm.trans known)
      rw [hpq] at he
      exact hauthor he.symm
    · exact h.notAuthor k q hq hm
  · intro k
    rw [length_reviewersOf_replaceReviewer assigned free]
    exact h.atMostTwo k

end Changes

/-- **Changes keep the integrity of the tables.** -/
theorem Integrity.change {t t' : Tables} {now : Instant} (h : t.Integrity) (hc : Change now t t') :
    t'.Integrity := by
  cases hc with
  | team fresh unnamed ids usernames placed => exact h.addTeam fresh unnamed ids usernames placed
  | activity known isActive => exact h.putUser known rfl rfl rfl
  | pullRequest unknown stamped author distinct users few =>
    exact h.addPullRequest unknown stamped.1 stamped.2.2 author distinct users few
  | merge known opened => exact h.putMerged known now
  | replacement known opened assigned free user notAuthor =>
    exact h.replaceReviewer known assigned free user notAuthor

end Tables

end ReviewRota
