import ReviewRota.Proofs.Candidates
import ReviewRota.Proofs.Telling

/-!
# Creating a team

Everything that the creation of a team comes to on tables with a history. There are two cases: the name
is taken, or the team is there afterwards with the members of the draft, whatever teams and usernames
they had before. What rosters show after it is part of the main statement: the new team lists its
members, and every other team has lost those of them that it had.
-/

namespace ReviewRota

namespace Tables

/-- A team is there that was not there before, with these members, who have left their former teams,
and nothing else is different. -/
structure Settled (t : Tables) (team : Team) (members : List User) (t' : Tables) : Prop where
  unknown : t.teams.find? team.id = none
  teams : ∀ k, t'.teams.find? k = if k = team.id then some team else t.teams.find? k
  listed : ∀ u ∈ members, t'.users.find? u.id = some u
  others : ∀ k, k ∉ members.map User.id → t'.users.find? k = t.users.find? k
  /-- Nobody else is in the team. -/
  roster : ∀ k u, t'.users.find? k = some u → (u.teamId = team.id ↔ u ∈ members)
  pullRequests : t'.pullRequests = t.pullRequests
  reviewers : t'.reviewers = t.reviewers

theorem Integrity.settled_addTeam {t : Tables} (h : t.Integrity) {team : Team} {members : List User}
    (fresh : t.teams.find? team.id = none) (ids : (members.map User.id).Nodup)
    (placed : ∀ u ∈ members, u.teamId = team.id) :
    t.Settled team members (t.addTeam team members) where
  unknown := fresh
  teams := find?_teams_addTeam team members
  listed u hu := (find?_users_addTeam ids u.id u).mpr (Or.inl ⟨hu, rfl⟩)
  others k hk := by
    ext u
    rw [find?_users_addTeam ids]
    constructor
    · rintro (⟨hu, rfl⟩ | ⟨-, hu⟩)
      · exact absurd (List.mem_map_of_mem hu) hk
      · exact hu
    · exact fun hu => Or.inr ⟨hk, hu⟩
  roster k u hu := by
    rw [find?_users_addTeam ids] at hu
    refine ⟨fun hteam => ?_, placed u⟩
    rcases hu with ⟨hu, -⟩ | ⟨-, hu⟩
    · exact hu
    · exact absurd hteam (h.teamId_ne fresh hu)
  pullRequests := rfl
  reviewers := rfl

namespace Settled

variable {t t' : Tables} {team : Team} {members : List User}

/-- Whoever is listed in the new team is one of the members. -/
theorem usersOfTeam_perm (h : t.Settled team members t') (ht' : t'.Unambiguous)
    (ids : (members.map User.id).Nodup) : (t'.usersOfTeam team.id).Perm members :=
  ht'.usersOfTeam_perm_of ids h.listed h.roster

/-- Another team lists those who have not left it. -/
theorem usersOfTeam_of_ne (h : t.Settled team members t') (ht : t.Unambiguous)
    (ht' : t'.Unambiguous) {k : Identifier} (hk : k ≠ team.id) :
    t'.usersOfTeam k = (t.usersOfTeam k).filter fun u => u.id ∉ members.map User.id := by
  symm
  refine ht'.eq_usersOfTeam ((ht.nodup_usersOfTeam k).filter _) ?_
    ((t.usersOfTeam_sorted k).filter _)
  intro u
  rw [List.mem_filter, ht.mem_usersOfTeam, decide_eq_true_eq]
  constructor
  · rintro ⟨⟨hu, hteam⟩, hout⟩
    exact ⟨(h.others u.id hout).trans hu, hteam⟩
  · rintro ⟨hu, hteam⟩
    have hout : u.id ∉ members.map User.id := by
      intro hin
      obtain ⟨v, hv, hid⟩ := List.mem_map.mp hin
      obtain rfl := Ledger.eq_of_find? hu (h.listed v hv) hid.symm
      exact hk (hteam.symm.trans ((h.roster u.id u hu).mpr hv))
    exact ⟨⟨(h.others u.id hout).symm.trans hu, hteam⟩, hout⟩

end Settled

/-- What the creation of a team comes to when the identifier that is handed out is `id`, with the
tables that it leaves. -/
inductive Founded (t : Tables) (draft : TeamDraft) (id : Identifier) :
    Except Failure Roster → Tables → Prop where
  | taken {team : Team} (known : t.teams.find? team.id = some team)
      (named : team.name = draft.teamName) :
      Founded t draft id (.error (.named .teamExists draft.teamName)) t
  /-- The answer lists the members in the order of the draft. -/
  | founded {t' : Tables}
      (unnamed : ∀ k team, t.teams.find? k = some team → team.name ≠ draft.teamName)
      (settled : t.Settled ⟨id, draft.teamName⟩ (draft.members.map (MemberDraft.joining id)) t') :
      Founded t draft id
        (.ok ⟨⟨id, draft.teamName⟩, draft.members.map (MemberDraft.joining id)⟩) t'

namespace Founded

variable {t t' : Tables} {draft : TeamDraft} {id : Identifier} {answer : Except Failure Roster}

/-- The only thing that can be wrong is the name. -/
theorem eq_teamExists_iff (h : t.Founded draft id answer t') :
    answer = .error (.named .teamExists draft.teamName) ↔
      ∃ k team, t.teams.find? k = some team ∧ team.name = draft.teamName := by
  cases h with
  | @taken team known named => exact ⟨fun _ => ⟨team.id, team, known, named⟩, fun _ => rfl⟩
  | founded unnamed settled =>
    constructor
    · rintro ⟨⟩
    · rintro ⟨k, team, known, named⟩
      exact absurd named (unnamed k team known)

end Founded

/-- On tables alone the creation of a team comes to one of the cases. -/
theorem Integrity.exists_founded {t : Tables} (h : t.Integrity) {draft : TeamDraft} {supply : Supply}
    (hp : (Command.createTeam draft).Proper ⟨t, supply⟩) :
    ∃ answer w, (Operation.createTeam draft).on ⟨t, supply⟩ = (answer, w) ∧
      t.Founded draft supply.freshId.1 answer w.tables := by
  obtain ⟨hd, hfresh⟩ := hp
  cases hname : t.teamNamed? draft.teamName with
  | some team =>
    obtain ⟨known, named⟩ := h.unambiguous.of_teamNamed? hname
    exact ⟨_, _, Program.on_createTeam_named (w := ⟨t, supply⟩) hname, .taken known named⟩
  | none =>
    have hon := Program.on_createTeam_new (w := ⟨t, supply⟩) h hd (hfresh hname) hname
    refine ⟨_, _, hon, .founded (teamNamed?_eq_none.mp hname) ?_⟩
    refine h.settled_addTeam (hfresh hname) ?_ ?_
    · rw [MemberDraft.map_id_joining]
      exact hd.ids
    · exact fun u hu => MemberDraft.teamId_of_mem_joining hu

end Tables

/-- A second team takes one of the first team in under another name, next to somebody new. -/
def TeamDraft.offshoot : TeamDraft := ⟨"edge", [⟨.ofNat 4, "dee", true⟩, ⟨.ofNat 2, "rob", false⟩]⟩

namespace Session.Rests

variable {name : String} {t : Tables} {s : Session} {ks : List Call}

/-- **A team can be created exactly when its name is free.** The members are those of the draft, in
its order; whoever asks next gets them by username, and gets every other team without those who have
moved. -/
theorem comes_to_founded (hs : s.Rests name t) (past : History name .empty ks t) {draft : TeamDraft}
    (proper : (Command.createTeam draft).Proper ⟨t, s.supply⟩) :
    ∃ answer t' s', (Course.command name (.createTeam draft)).run s = some (answer, s') ∧
      s'.Rests name t' ∧ t.Founded draft s.supply.freshId.1 answer t' ∧
      (answer = .error (.named .teamExists draft.teamName) ↔
        ∃ k team, t.teams.find? k = some team ∧ team.name = draft.teamName) ∧
      ∀ r, answer = .ok r →
        (∃ users, s'.Tells name (.team draft.teamName) (.ok ⟨r.team, users⟩) ∧
          users.Perm r.users ∧ users.Pairwise fun a b => a.username < b.username) ∧
        ∀ former : Roster, s.Tells name (.team former.team.name) (.ok former) →
          s'.Tells name (.team former.team.name)
            (.ok ⟨former.team, former.users.filter fun u => u.id ∉ r.users.map User.id⟩) := by
  have hi := past.integrity Tables.integrity_empty
  obtain ⟨answer, w, hon, hcase⟩ := hi.exists_founded proper
  obtain ⟨s', hrun, hs', hi'⟩ :=
    Course.command_rests_of_on (c := .createTeam draft) hs hi proper hon
  refine ⟨answer, w.tables, s', hrun, hs', hcase, hcase.eq_teamExists_iff, ?_⟩
  rintro r rfl
  have hu := hi.unambiguous
  have hu' := hi'.unambiguous
  cases hcase with
  | founded unnamed settled =>
    constructor
    · refine ⟨w.tables.usersOfTeam s.supply.freshId.1,
        (hs'.tells_team hu').mpr ⟨?_, rfl, rfl⟩, ?_, ?_⟩
      · exact (settled.teams _).trans (if_pos rfl)
      · refine settled.usersOfTeam_perm hu' ?_
        rw [MemberDraft.map_id_joining]
        exact proper.1.ids
      · exact hu'.usersOfTeam_sorted _
    · intro former hformer
      obtain ⟨hteam, -, husers⟩ := (hs.tells_team hu).mp hformer
      have hne : former.team.id ≠ s.supply.freshId.1 := Ledger.ne_of_find? hteam settled.unknown
      refine (hs'.tells_team hu').mpr ⟨?_, rfl, ?_⟩
      · exact (settled.teams _).trans ((if_neg hne).trans hteam)
      · rw [husers, settled.usersOfTeam_of_ne hu hu' hne]

open Call (founding)
open TeamDraft (offshoot)
open Roster (core)

/-- It keeps two of three. -/
theorem comes_to_founded_offshoot :
    History "rota" .empty [founding] (founding.after .empty) ∧
      (holding "rota" (founding.after .empty) { (default : Supply) with issued := 1 }).Rests "rota"
        (founding.after .empty) ∧
      (Command.createTeam offshoot).Proper
        ⟨founding.after .empty, { (default : Supply) with issued := 1 }⟩ ∧
      ∃ r t' s', (Course.command "rota" (.createTeam offshoot)).run
          (holding "rota" (founding.after .empty) { (default : Supply) with issued := 1 }) =
            some (.ok r, s') ∧
        s'.Rests "rota" t' ∧
        r.users = [⟨.ofNat 4, "dee", true, Supply.serial 2⟩, ⟨.ofNat 2, "rob", false, Supply.serial 2⟩] ∧
        s'.Tells "rota" (.team "core") (.ok ⟨core.team,
          [⟨.ofNat 1, "ann", true, Supply.serial 1⟩, ⟨.ofNat 3, "cid", false, Supply.serial 1⟩]⟩) := by
  have past := History.history_founding "rota"
  have hs := rests_holding "rota" (founding.after .empty) { (default : Supply) with issued := 1 }
  have proper : (Command.createTeam offshoot).Proper
      ⟨founding.after .empty, { (default : Supply) with issued := 1 }⟩ :=
    ⟨⟨by decide, by decide⟩, fun _ => by decide⟩
  obtain ⟨answer, t', s', hrun, hs', hcase, -, hread⟩ := hs.comes_to_founded past proper
  cases hcase with
  | @taken team known named =>
    have hfree : (founding.after .empty).teamNamed? "edge" = none := by decide
    exact absurd named (Tables.teamNamed?_eq_none.mp hfree team.id team known)
  | founded =>
    obtain ⟨-, hformer⟩ := hread _ rfl
    have hstay : (core.users.filter fun u => u.id ∉ [Identifier.ofNat 4, .ofNat 2]) =
        [⟨.ofNat 1, "ann", true, Supply.serial 1⟩, ⟨.ofNat 3, "cid", false, Supply.serial 1⟩] := by
      decide
    have hkept : s'.Tells "rota" (.team "core") (.ok ⟨core.team,
        core.users.filter fun u => u.id ∉ [Identifier.ofNat 4, .ofNat 2]⟩) := hformer core hs.tells_core
    rw [hstay] at hkept
    exact ⟨past, hs, proper, _, t', s', hrun, hs', rfl, hkept⟩

end Session.Rests

end ReviewRota
