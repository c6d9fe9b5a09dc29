import ReviewRota.Proofs.Replies

/-!
# Tables without ambiguity

Everything stands under its own key, teams differ in their names and the users of a team in their
usernames. Every single request to the tables keeps this much, whoever makes it, and it settles what
lists there are: the tables hold one team of a name, one list of the users of a team by username and
one list of pull requests by identifier, whatever order they were put in. `Tables.Edit` lists what a
request can do to tables at all.
-/

namespace ReviewRota

namespace Tables

/-- Keys, names and usernames tell everything in the tables apart. -/
structure Unambiguous (t : Tables) : Prop where
  teamKeys : t.teams.Keyed Team.id
  userKeys : t.users.Keyed User.id
  pullRequestKeys : t.pullRequests.Keyed PullRequest.id
  teamNames : ∀ j k a b, t.teams.find? j = some a → t.teams.find? k = some b →
    a.name = b.name → j = k
  usernames : ∀ j k a b, t.users.find? j = some a → t.users.find? k = some b →
    a.teamId = b.teamId → a.username = b.username → j = k

variable {t : Tables}

theorem Integrity.unambiguous (h : t.Integrity) : t.Unambiguous :=
  ⟨h.teamKeys, h.userKeys, h.pullRequestKeys, h.teamNames, h.usernames⟩

/-- The tables with a team put in. -/
def putTeam (team : Team) (t : Tables) : Tables := { t with teams := t.teams.put team.id team }

theorem find?_putTeam (team : Team) (k : Identifier) :
    (t.putTeam team).teams.find? k = if k = team.id then some team else t.teams.find? k := by
  simp [putTeam]

/-- What a single request can do to tables, with what was checked before it. -/
inductive Edit (t : Tables) : Tables → Prop where
  | kept : Edit t t
  | team {team : Team} (unnamed : t.teamNamed? team.name = none) : Edit t (t.putTeam team)
  | user {u : User} (free : t.usernameTaken u = false) : Edit t (t.putUser u)
  | opened {p : PullRequest} {author : User} (author : t.users.find? p.authorId = some author) :
      Edit t (t.putPullRequest p)
  | merged {p : PullRequest} (known : t.pullRequests.find? p.id = some p) (now : Instant) :
      Edit t (t.putPullRequest (p.mergedOn now))
  | paired {p u : Identifier} {pr : PullRequest} {user : User}
      (known : t.pullRequests.find? p = some pr) (user : t.users.find? u = some user) :
      Edit t { t with reviewers := t.reviewers.insert (p, u) }
  | unpaired (p u : Identifier) : Edit t { t with reviewers := t.reviewers.erase (p, u) }

namespace Unambiguous

theorem putTeam (h : t.Unambiguous) {team : Team} (unnamed : t.teamNamed? team.name = none) :
    (t.putTeam team).Unambiguous where
  teamKeys := h.teamKeys.put team
  userKeys := h.userKeys
  pullRequestKeys := h.pullRequestKeys
  teamNames := by
    intro j k a b ha hb he
    have hothers := teamNamed?_eq_none.mp unnamed
    rw [find?_putTeam] at ha hb
    split at ha <;> split at hb
    · rename_i hj hk
      exact hj.trans hk.symm
    · cases ha
      exact absurd he.symm (hothers k b hb)
    · cases hb
      exact absurd he (hothers j a ha)
    · exact h.teamNames j k a b ha hb he
  usernames := h.usernames

theorem putUser (h : t.Unambiguous) {u : User} (free : t.usernameTaken u = false) :
    (t.putUser u).Unambiguous where
  teamKeys := h.teamKeys
  userKeys := h.userKeys.put u
  pullRequestKeys := h.pullRequestKeys
  teamNames := h.teamNames
  usernames := by
    intro j k a b ha hb ht hn
    have hothers := usernameTaken_eq_false.mp free
    rw [find?_putUser] at ha hb
    split at ha <;> split at hb
    · rename_i hj hk
      exact hj.trans hk.symm
    · rename_i hj hk
      cases ha
      have hid := h.userKeys k b hb
      exact absurd hn.symm (hothers k b hb (hid.trans_ne hk) ht.symm)
    · rename_i hj hk
      cases hb
      have hid := h.userKeys j a ha
      exact absurd hn (hothers j a ha (hid.trans_ne hj) ht)
    · exact h.usernames j k a b ha hb ht hn

theorem putPullRequest (h : t.Unambiguous) (p : PullRequest) : (t.putPullRequest p).Unambiguous :=
  ⟨h.teamKeys, h.userKeys, h.pullRequestKeys.put p, h.teamNames, h.usernames⟩

theorem withReviewers (h : t.Unambiguous) (ps : Pairs) : Unambiguous { t with reviewers := ps } :=
  ⟨h.teamKeys, h.userKeys, h.pullRequestKeys, h.teamNames, h.usernames⟩

/-- The username of a stored user is not taken by another one. -/
theorem usernameTaken (h : t.Unambiguous) {u v : User} (hu : t.users.find? u.id = some u)
    (hid : v.id = u.id) (hteam : v.teamId = u.teamId) (hname : v.username = u.username) :
    t.usernameTaken v = false := by
  rw [usernameTaken_eq_false]
  intro k other hk hne ht hn
  -- the other one would be the stored user himself
  have hsame := h.usernames k u.id other u hk hu (ht.trans hteam) (hn.trans hname)
  rw [hsame, hu] at hk
  cases hk
  exact hne hid.symm

theorem edit {t' : Tables} (h : t.Unambiguous) (edit : t.Edit t') : t'.Unambiguous := by
  cases edit with
  | kept => exact h
  | team unnamed => exact h.putTeam unnamed
  | user free => exact h.putUser free
  | opened author => exact h.putPullRequest _
  | merged known now => exact h.putPullRequest _
  | paired known user => exact h.withReviewers _
  | unpaired p u => exact h.withReviewers _

/-! ## The team of a name -/

/-- Stored teams of one name are the same one. -/
theorem team_unique (h : t.Unambiguous) {a b : Team} (ha : t.teams.find? a.id = some a)
    (hb : t.teams.find? b.id = some b) (hname : a.name = b.name) : a = b :=
  Ledger.eq_of_find? ha hb (h.teamNames a.id b.id a b ha hb hname)

theorem of_teamNamed? (h : t.Unambiguous) {name : String} {team : Team}
    (hfound : t.teamNamed? name = some team) :
    t.teams.find? team.id = some team ∧ team.name = name := by
  have hmem : team ∈ t.teams.values := List.mem_of_find?_eq_some hfound
  have hname := List.find?_some (p := fun team : Team => decide (team.name = name)) hfound
  exact ⟨h.teamKeys.mem_values.mp hmem, of_decide_eq_true hname⟩

theorem teamNamed?_eq_some (h : t.Unambiguous) {name : String} {team : Team} :
    t.teamNamed? name = some team ↔ t.teams.find? team.id = some team ∧ team.name = name := by
  constructor
  · exact h.of_teamNamed?
  · rintro ⟨hteam, hname⟩
    cases hfound : t.teamNamed? name with
    | none => exact absurd hname (teamNamed?_eq_none.mp hfound team.id team hteam)
    | some other =>
      obtain ⟨hother, hsame⟩ := h.of_teamNamed? hfound
      rw [h.team_unique hother hteam (hsame.trans hname.symm)]

/-! ## The users of a team -/

/-- Stored users of one team and username are the same one. -/
theorem user_unique (h : t.Unambiguous) {a b : User} (ha : t.users.find? a.id = some a)
    (hb : t.users.find? b.id = some b) (hteam : a.teamId = b.teamId)
    (hname : a.username = b.username) : a = b :=
  Ledger.eq_of_find? ha hb (h.usernames a.id b.id a b ha hb hteam hname)

theorem mem_usersOfTeam (h : t.Unambiguous) {teamId : Identifier} {u : User} :
    u ∈ t.usersOfTeam teamId ↔ t.users.find? u.id = some u ∧ u.teamId = teamId := by
  rw [Tables.mem_usersOfTeam, h.userKeys.mem_values]

theorem nodup_ids_usersOfTeam (h : t.Unambiguous) (teamId : Identifier) :
    ((t.usersOfTeam teamId).map User.id).Nodup := by
  have hperm := (usersOfTeam_perm teamId t).map User.id
  rw [hperm.nodup_iff]
  exact h.userKeys.nodup_values.sublist (List.filter_sublist.map _)

theorem nodup_usersOfTeam (h : t.Unambiguous) (teamId : Identifier) :
    (t.usersOfTeam teamId).Nodup :=
  (h.nodup_ids_usersOfTeam teamId).of_map

end Unambiguous

theorem usersOfTeam_sorted (t : Tables) (teamId : Identifier) :
    (t.usersOfTeam teamId).Pairwise fun a b => a.username ≤ b.username := by
  have hsorted : (t.usersOfTeam teamId).Pairwise fun a b => decide (a.username ≤ b.username) = true :=
    List.pairwise_mergeSort
      (fun a b c hab hbc => by simpa using String.le_trans (by simpa using hab) (by simpa using hbc))
      (fun a b => by simpa using String.le_total a.username b.username) _
  exact hsorted.imp of_decide_eq_true

namespace Unambiguous

/-- Two lists of the users of a team by username are the same list. -/
theorem eq_usersOfTeam (h : t.Unambiguous) {teamId : Identifier} {us : List User}
    (hnodup : us.Nodup) (hmem : ∀ u, u ∈ us ↔ t.users.find? u.id = some u ∧ u.teamId = teamId)
    (hsorted : us.Pairwise fun a b => a.username ≤ b.username) : us = t.usersOfTeam teamId := by
  have hperm : us.Perm (t.usersOfTeam teamId) := by
    rw [List.perm_ext_iff_of_nodup hnodup (h.nodup_usersOfTeam teamId)]
    intro u
    rw [hmem, h.mem_usersOfTeam]
  -- the order leaves no choice, since usernames differ within a team
  refine hperm.eq_of_pairwise ?_ hsorted (usersOfTeam_sorted t teamId)
  intro a b ha hb hab hba
  obtain ⟨hfa, hta⟩ := (hmem a).mp ha
  obtain ⟨hfb, htb⟩ := h.mem_usersOfTeam.mp hb
  exact h.user_unique hfa hfb (hta.trans htb.symm) (String.le_antisymm hab hba)

/-- A team lists some users when they and nobody else stand under it. -/
theorem usersOfTeam_perm_of (h : t.Unambiguous) {teamId : Identifier} {us : List User}
    (ids : (us.map User.id).Nodup) (listed : ∀ u ∈ us, t.users.find? u.id = some u)
    (others : ∀ k u, t.users.find? k = some u → (u.teamId = teamId ↔ u ∈ us)) :
    (t.usersOfTeam teamId).Perm us := by
  rw [List.perm_ext_iff_of_nodup (h.nodup_usersOfTeam teamId) ids.of_map]
  intro u
  rw [h.mem_usersOfTeam]
  constructor
  · rintro ⟨hu, hteam⟩
    exact (others u.id u hu).mp hteam
  · intro hu
    have hstored := listed u hu
    exact ⟨hstored, (others u.id u hstored).mpr hu⟩

/-! ## The pull requests that a list of identifiers names -/

theorem mem_named (h : t.Unambiguous) {ids : List Identifier} {p : PullRequest} :
    p ∈ ids.filterMap t.pullRequests.find? ↔ t.pullRequests.find? p.id = some p ∧ p.id ∈ ids := by
  rw [List.mem_filterMap]
  constructor
  · rintro ⟨id, hid, hp⟩
    obtain rfl := h.pullRequestKeys id p hp
    exact ⟨hp, hid⟩
  · rintro ⟨hp, hid⟩
    exact ⟨p.id, hid, hp⟩

theorem nodup_named (h : t.Unambiguous) {ids : List Identifier} (hids : ids.Nodup) :
    (ids.filterMap t.pullRequests.find?).Nodup :=
  hids.filterMap fun i j p hi hj => (h.pullRequestKeys i p hi).symm.trans (h.pullRequestKeys j p hj)

/-- Stored pull requests of one identifier are the same one. -/
theorem pullRequest_unique (h : t.Unambiguous) {ids : List Identifier} {p q : PullRequest}
    (hp : p ∈ ids.filterMap t.pullRequests.find?) (hq : q ∈ ids.filterMap t.pullRequests.find?)
    (hid : p.id = q.id) : p = q := by
  obtain ⟨hfp, -⟩ := h.mem_named.mp hp
  obtain ⟨hfq, -⟩ := h.mem_named.mp hq
  exact Ledger.eq_of_find? hfp hfq hid

/-- Two lists of the pull requests that a list of identifiers names differ in their order only. -/
theorem perm_named (h : t.Unambiguous) {ids : List Identifier} (hids : ids.Nodup)
    {ps : List PullRequest} (hnodup : ps.Nodup)
    (hmem : ∀ p, p ∈ ps ↔ t.pullRequests.find? p.id = some p ∧ p.id ∈ ids) :
    ps.Perm (ids.filterMap t.pullRequests.find?) := by
  rw [List.perm_ext_iff_of_nodup hnodup (h.nodup_named hids)]
  intro p
  rw [hmem, h.mem_named]

end Unambiguous

end Tables

namespace StoreCall

/-- The identifier of a new user, and what is handed out after it. -/
def identify : Option Identifier → Supply → Identifier × Supply
  | some id, supply => (id, supply)
  | none, supply => supply.freshId

theorem run_createUser_eq (username : String) (isActive : Bool) (teamId : Identifier)
    (id? : Option Identifier) (w : World) :
    (createUser username isActive teamId id?).run w =
      let id := (identify id? w.supply).1
      let supply := (identify id? w.supply).2
      if w.tables.users.contains id then
        (.error (.worded .conflict "user already exists" (.entity id)), ⟨w.tables, supply⟩)
      else if w.tables.usernameTaken ⟨id, username, isActive, teamId⟩ then
        (.error (usernameConflict username), ⟨w.tables, supply⟩)
      else (.ok ⟨id, username, isActive, teamId⟩,
        ⟨w.tables.putUser ⟨id, username, isActive, teamId⟩, supply⟩) := by
  cases id? <;> rfl

/-- **A request is an edit of the tables**, whether it is refused or not. -/
theorem edit_run {w : World} (h : w.tables.Unambiguous) (q : StoreCall) :
    w.tables.Edit (q.run w).2.tables := by
  cases q with
  | createTeam name =>
    cases hname : w.tables.teamNamed? name with
    | some team => simpa [run, hname] using .kept
    | none =>
      rw [run_createTeam hname]
      have hunnamed : w.tables.teamNamed? (Team.mk w.supply.freshId.1 name).name = none := hname
      exact .team hunnamed
  | teamNamed name => cases hname : w.tables.teamNamed? name <;> simpa [run, hname] using .kept
  | team id => cases hid : w.tables.teams.find? id <;> simpa [run, hid] using .kept
  | createUser username isActive teamId id? =>
    simp only [run_createUser_eq]
    split
    · exact .kept
    · split
      · exact .kept
      · rename_i hfree
        exact .user (eq_false_of_ne_true hfree)
  | user id => cases hid : w.tables.users.find? id <;> simpa [run, hid] using .kept
  | setActive id isActive =>
    cases hid : w.tables.users.find? id with
    | none => simpa [run, hid] using .kept
    | some u =>
      obtain rfl := h.userKeys id u hid
      rw [run_setActive hid]
      exact .user (h.usernameTaken hid rfl rfl rfl)
  | usersOfTeam teamId => exact .kept
  | updateUser u =>
    cases hid : w.tables.users.find? u.id with
    | none => simpa [run, hid] using .kept
    | some old =>
      cases hfree : w.tables.usernameTaken u with
      | true => simpa [run, hid, hfree] using .kept
      | false => simpa [run, hid, hfree] using .user hfree
  | createPullRequest id name authorId =>
    cases hid : w.tables.pullRequests.find? id with
    | some p =>
      rw [run_createPullRequest_exists hid]
      exact .kept
    | none =>
      cases ha : w.tables.users.find? authorId with
      | none => simpa [run, Ledger.contains, hid, ha] using .kept
      | some author =>
        rw [run_createPullRequest hid ha]
        exact .opened (p := .opening id name authorId w.supply.readClock.1) ha
  | pullRequest id lock => cases hid : w.tables.pullRequests.find? id <;> simpa [run, hid] using .kept
  | pullRequests ids => exact .kept
  | setMerged id =>
    cases hid : w.tables.pullRequests.find? id with
    | none => simpa [run, hid] using .kept
    | some p =>
      obtain rfl := h.pullRequestKeys id p hid
      cases hs : p.status with
      | merged => simpa [run, hid, PullRequest.isMerged, hs] using .kept
      | opened =>
        rw [run_setMerged hid hs]
        exact .merged hid w.supply.readClock.1
  | assign p u =>
    by_cases hpair : (p, u) ∈ w.tables.reviewers
    · simpa [run, hpair] using .kept
    · cases hp : w.tables.pullRequests.find? p with
      | none => simpa [run, Ledger.contains, hpair, hp] using .kept
      | some pr =>
        cases hu : w.tables.users.find? u with
        | none => simpa [run, Ledger.contains, hpair, hp, hu] using .kept
        | some user =>
          rw [run_assign hpair hp hu]
          exact .paired hp hu
  | unassign p u =>
    by_cases hpair : (p, u) ∈ w.tables.reviewers
    · rw [run_unassign hpair]
      exact .unpaired p u
    · simpa [run, hpair] using .kept
  | reviewersOf p => exact .kept
  | reviewedBy u => exact .kept

/-- Every request keeps the tables unambiguous. -/
theorem unambiguous_run {w : World} (h : w.tables.Unambiguous) (q : StoreCall) :
    (q.run w).2.tables.Unambiguous :=
  h.edit (edit_run h q)

end StoreCall

end ReviewRota
