import ReviewRota.Proofs.Founding

/-!
# Rosters

The rosters of all stored teams share the stored users out among them: every user is in one of them,
as he is stored, and nobody is in two. It takes the whole integrity of the tables to see this, since
rosters are asked for by name and users point at teams. A change of somebody's activity shows in his
roster and nowhere else.
-/

namespace ReviewRota

/-- A user, with another activity if it is the one meant. -/
def User.marked (id : Identifier) (isActive : Bool) (u : User) : User :=
  if u.id = id then { u with isActive } else u

/-- A roster with another activity of one user, if he is in it. -/
def Roster.marked (id : Identifier) (isActive : Bool) (r : Roster) : Roster :=
  ⟨r.team, r.users.map (User.marked id isActive)⟩

namespace User

variable {id : Identifier} {isActive : Bool}

@[simp] theorem id_marked (u : User) : (u.marked id isActive).id = u.id := by
  unfold marked
  split <;> rfl

@[simp] theorem username_marked (u : User) : (u.marked id isActive).username = u.username := by
  unfold marked
  split <;> rfl

@[simp] theorem teamId_marked (u : User) : (u.marked id isActive).teamId = u.teamId := by
  unfold marked
  split <;> rfl

end User

namespace Tables

/-- The rosters of all teams. -/
def rosters (t : Tables) : List Roster := t.teams.values.map fun team => ⟨team, t.usersOfTeam team.id⟩

/-- One user has another activity, and nothing else is different. -/
structure Marked (t : Tables) (id : Identifier) (isActive : Bool) (t' : Tables) : Prop where
  teams : t'.teams = t.teams
  users : ∀ k, t'.users.find? k = (t.users.find? k).map (User.marked id isActive)
  pullRequests : t'.pullRequests = t.pullRequests
  reviewers : t'.reviewers = t.reviewers

variable {t t' : Tables}

namespace Unambiguous

theorem mem_rosters (h : t.Unambiguous) {r : Roster} :
    r ∈ t.rosters ↔ t.teams.find? r.team.id = some r.team ∧ r.users = t.usersOfTeam r.team.id := by
  rw [rosters, List.mem_map]
  constructor
  · rintro ⟨team, hteam, rfl⟩
    exact ⟨h.teamKeys.mem_values.mp hteam, rfl⟩
  · rintro ⟨hteam, husers⟩
    refine ⟨r.team, h.teamKeys.mem_values.mpr hteam, ?_⟩
    rw [← husers]

/-- A user in a roster is stored as he is there, and his team is that of the roster. -/
theorem of_mem_roster (h : t.Unambiguous) {r : Roster} (hr : r ∈ t.rosters) {u : User}
    (hu : u ∈ r.users) : t.users.find? u.id = some u ∧ u.teamId = r.team.id := by
  rw [(h.mem_rosters.mp hr).2] at hu
  exact h.mem_usersOfTeam.mp hu

/-- A team has one roster. -/
theorem eq_of_team_rosters (h : t.Unambiguous) {r r' : Roster} (hr : r ∈ t.rosters)
    (hr' : r' ∈ t.rosters) (same : r.team.id = r'.team.id) : r = r' := by
  obtain ⟨hstored, husers⟩ := h.mem_rosters.mp hr
  obtain ⟨hstored', husers'⟩ := h.mem_rosters.mp hr'
  have hteam := Ledger.eq_of_find? hstored hstored' same
  have hmembers : r.users = r'.users := by rw [husers, husers', hteam]
  exact congrArg₂ Roster.mk hteam hmembers

/-- Nobody is in two rosters. -/
theorem eq_of_mem_rosters (h : t.Unambiguous) {r r' : Roster} (hr : r ∈ t.rosters)
    (hr' : r' ∈ t.rosters) {u u' : User} (hu : u ∈ r.users) (hu' : u' ∈ r'.users)
    (same : u.id = u'.id) : r = r' := by
  obtain ⟨hfound, hteam⟩ := h.of_mem_roster hr hu
  obtain ⟨hfound', hteam'⟩ := h.of_mem_roster hr' hu'
  obtain rfl := Ledger.eq_of_find? hfound hfound' same
  exact h.eq_of_team_rosters hr hr' (hteam.symm.trans hteam')

theorem nodup_ids_rosters (h : t.Unambiguous) :
    ((t.rosters.flatMap Roster.users).map User.id).Nodup := by
  rw [List.map_flatMap, List.nodup_flatMap]
  -- identifiers differ within a roster, and rosters of different teams have nobody in common
  constructor
  · intro r hr
    rw [(h.mem_rosters.mp hr).2]
    exact h.nodup_ids_usersOfTeam r.team.id
  · have hdistinct : t.rosters.Pairwise fun r r' => r.team.id ≠ r'.team.id := by
      rw [rosters, List.pairwise_map]
      exact List.pairwise_map.mp h.teamKeys.nodup_values
    refine hdistinct.imp_of_mem fun {r r'} hr hr' hne k hk hk' => ?_
    obtain ⟨u, hu, rfl⟩ := List.mem_map.mp hk
    obtain ⟨u', hu', hid⟩ := List.mem_map.mp hk'
    exact hne (congrArg (fun r => r.team.id) (h.eq_of_mem_rosters hr hr' hu hu' hid.symm))

theorem nodup_names_rosters (h : t.Unambiguous) :
    (t.rosters.map fun r => r.team.name).Nodup := by
  rw [rosters, List.map_map]
  refine (h.teamKeys.nodup_values.of_map).map_on fun a ha b hb hname => ?_
  exact h.team_unique (h.teamKeys.mem_values.mp ha) (h.teamKeys.mem_values.mp hb) hname

end Unambiguous

/-- Everybody is in a roster, since users have teams. -/
theorem Integrity.mem_rosters_users (h : t.Integrity) {u : User} :
    u ∈ t.rosters.flatMap Roster.users ↔ t.users.find? u.id = some u := by
  rw [List.mem_flatMap]
  constructor
  · rintro ⟨r, hr, hu⟩
    exact (h.unambiguous.of_mem_roster hr hu).1
  · intro hu
    obtain ⟨team, hteam⟩ := h.userTeams u.id u hu
    have hid : team.id = u.teamId := h.teamKeys u.teamId team hteam
    refine ⟨⟨team, t.usersOfTeam team.id⟩, ?_, ?_⟩
    · exact h.unambiguous.mem_rosters.mpr ⟨hid ▸ hteam, rfl⟩
    · exact h.unambiguous.mem_usersOfTeam.mpr ⟨hu, hid.symm⟩

/-! ## Activity -/

theorem marked_putUser {u : User} (known : t.users.find? u.id = some u) (keys : t.users.Keyed User.id)
    (isActive : Bool) : t.Marked u.id isActive (t.putUser { u with isActive }) where
  teams := rfl
  users k := by
    rw [find?_putUser]
    split
    · rename_i hk
      obtain rfl : k = u.id := hk
      rw [known, Option.map_some, User.marked, if_pos rfl]
    · rename_i hk
      cases hv : t.users.find? k with
      | none => rfl
      | some v =>
        have hne : v.id ≠ u.id := (keys k v hv).trans_ne hk
        rw [Option.map_some, User.marked, if_neg hne]
  pullRequests := rfl
  reviewers := rfl

namespace Marked

variable {id : Identifier} {isActive : Bool}

theorem usersOfTeam (h : t.Marked id isActive t') (ht : t.Unambiguous) (ht' : t'.Unambiguous)
    (teamId : Identifier) :
    t'.usersOfTeam teamId = (t.usersOfTeam teamId).map (User.marked id isActive) := by
  symm
  refine ht'.eq_usersOfTeam ?_ ?_ ?_
  · refine List.Nodup.of_map User.id ?_
    simpa [List.map_map, Function.comp_def] using ht.nodup_ids_usersOfTeam teamId
  · intro v
    rw [h.users, List.mem_map]
    constructor
    · rintro ⟨u, hu, rfl⟩
      obtain ⟨hfound, hteam⟩ := ht.mem_usersOfTeam.mp hu
      rw [User.id_marked, hfound, User.teamId_marked]
      exact ⟨rfl, hteam⟩
    · rintro ⟨hv, hteam⟩
      obtain ⟨u, hu, rfl⟩ := Option.map_eq_some_iff.mp hv
      rw [User.id_marked] at hu
      rw [User.teamId_marked] at hteam
      exact ⟨u, ht.mem_usersOfTeam.mpr ⟨hu, hteam⟩, rfl⟩
  · rw [List.pairwise_map]
    simpa using t.usersOfTeam_sorted teamId

theorem rosters (h : t.Marked id isActive t') (ht : t.Unambiguous) (ht' : t'.Unambiguous) :
    t'.rosters = t.rosters.map (Roster.marked id isActive) := by
  rw [Tables.rosters, Tables.rosters, h.teams, List.map_map]
  refine List.map_congr_left fun team _ => ?_
  rw [h.usersOfTeam ht ht']
  rfl

end Marked

end Tables

/-! ## What is told -/

namespace Session

/-- These rosters, one for every stored team, are told when they are asked for by name, and they share
the stored users out among them. -/
structure SharesOut (name : String) (s : Session) (t : Tables) (rosters : List Roster) : Prop where
  teams : ∀ team, t.teams.find? team.id = some team ↔ ∃ r ∈ rosters, r.team = team
  names : (rosters.map fun r => r.team.name).Nodup
  told : ∀ r ∈ rosters, s.Tells name (.team r.team.name) (.ok r)
  byUsername : ∀ r ∈ rosters, r.users.Pairwise fun a b => a.username < b.username
  /-- Nobody is there twice. -/
  once : ((rosters.flatMap Roster.users).map User.id).Nodup
  /-- Everybody is there. -/
  stored : ∀ id u, t.users.find? id = some u ↔ u.id = id ∧ u ∈ rosters.flatMap Roster.users
  /-- Everybody is there as it is told when he is asked for alone. -/
  users : ∀ id (u : User), s.Tells name (.user id) (.ok u) ↔
    u.id = id ∧ u ∈ rosters.flatMap Roster.users

namespace Rests

variable {name : String} {t : Tables} {s : Session} {ks : List Call}

theorem sharesOut (hs : s.Rests name t) (hi : t.Integrity) : s.SharesOut name t t.rosters := by
  have hu := hi.unambiguous
  have hstored : ∀ id u, t.users.find? id = some u ↔
      u.id = id ∧ u ∈ t.rosters.flatMap Roster.users := by
    intro id u
    rw [hi.mem_rosters_users]
    constructor
    · intro hfound
      obtain rfl := hu.userKeys id u hfound
      exact ⟨rfl, hfound⟩
    · rintro ⟨rfl, hfound⟩
      exact hfound
  refine ⟨?_, hu.nodup_names_rosters, ?_, ?_, hu.nodup_ids_rosters, hstored, ?_⟩
  · intro team
    constructor
    · exact fun hteam => ⟨⟨team, t.usersOfTeam team.id⟩, hu.mem_rosters.mpr ⟨hteam, rfl⟩, rfl⟩
    · rintro ⟨r, hr, rfl⟩
      exact (hu.mem_rosters.mp hr).1
  · intro r hr
    obtain ⟨hteam, husers⟩ := hu.mem_rosters.mp hr
    exact (hs.tells_team hu).mpr ⟨hteam, rfl, husers⟩
  · intro r hr
    rw [(hu.mem_rosters.mp hr).2]
    exact hu.usersOfTeam_sorted r.team.id
  · intro id u
    rw [hs.tells_user, hstored]

/-- **Teams share the users out among them**: every stored user is in the roster of one team. That
team is named when his activity is set, and then the rosters are what they were but for that. -/
theorem rosters_share_out_users (hs : s.Rests name t) (past : History name .empty ks t) :
    ∃ rosters, s.SharesOut name t rosters ∧
      ∀ r ∈ rosters, ∀ u ∈ r.users, (∀ r' ∈ rosters, u ∈ r'.users → r' = r) ∧
        ∀ isActive, ∃ t' s', (Course.command name (.setActive u.id isActive)).run s =
            some (.ok ⟨u.id, u.username, isActive, r.team.name⟩, s') ∧
          s'.Rests name t' ∧ t.Marked u.id isActive t' ∧
          s'.SharesOut name t' (rosters.map (Roster.marked u.id isActive)) := by
  have hi := past.integrity Tables.integrity_empty
  have hu := hi.unambiguous
  refine ⟨t.rosters, hs.sharesOut hi, fun r hr u hmem => ⟨?_, fun isActive => ?_⟩⟩
  · exact fun r' hr' hmem' => hu.eq_of_mem_rosters hr' hr hmem' hmem rfl
  · -- the team that the user points at is the one whose roster he is in
    obtain ⟨hknown, hteam⟩ := hu.of_mem_roster hr hmem
    have hstored : t.teams.find? u.teamId = some r.team := hteam ▸ (hu.mem_rosters.mp hr).1
    have hon := Program.on_setActive_known (w := ⟨t, s.supply⟩) hknown hstored isActive
    obtain ⟨s', hrun, hs', hi'⟩ :=
      Course.command_rests_of_on (c := .setActive u.id isActive) hs hi trivial hon
    have hmarked := Tables.marked_putUser hknown hu.userKeys isActive
    have hshares := hs'.sharesOut hi'
    rw [hmarked.rosters hu hi'.unambiguous] at hshares
    exact ⟨_, s', hrun, hs', hmarked, hshares⟩

open Call (founding)
open Roster (core)

/-- The inactive one of the only team becomes active. -/
theorem rosters_share_out_users_founding :
    History "rota" .empty [founding] (founding.after .empty) ∧
      (holding "rota" (founding.after .empty) default).Rests "rota" (founding.after .empty) ∧
      (holding "rota" (founding.after .empty) default).Tells "rota" (.team "core") (.ok core) ∧
      ∃ s', (Course.command "rota" (.setActive (.ofNat 3) true)).run
          (holding "rota" (founding.after .empty) default) =
            some (.ok ⟨.ofNat 3, "cid", true, "core"⟩, s') ∧
        s'.Tells "rota" (.team "core") (.ok ⟨core.team, [⟨.ofNat 1, "ann", true, Supply.serial 1⟩,
          ⟨.ofNat 2, "bob", true, Supply.serial 1⟩, ⟨.ofNat 3, "cid", true, Supply.serial 1⟩]⟩) := by
  have past := History.history_founding "rota"
  have hs := rests_holding "rota" (founding.after .empty) default
  obtain ⟨rosters, hshares, hmark⟩ := hs.rosters_share_out_users past
  obtain ⟨r, hr, hteam⟩ := (hshares.teams core.team).mp (by decide)
  have htold := hshares.told r hr
  rw [hteam] at htold
  obtain rfl : core = r := Except.ok.inj (hs.tells_core.unique htold)
  obtain ⟨-, hset⟩ := hmark core hr ⟨.ofNat 3, "cid", false, Supply.serial 1⟩ (by decide)
  obtain ⟨t', s', hrun, -, -, hshares'⟩ := hset true
  have htold' := hshares'.told _ (List.mem_map_of_mem hr)
  exact ⟨past, hs, hs.tells_core, s', hrun, htold'⟩

end Rests

end Session

end ReviewRota
