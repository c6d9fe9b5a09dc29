import ReviewRota.Proofs.Candidates
import ReviewRota.Proofs.Telling
import ReviewRota.Proofs.TrimmedNames

/-!
# Fetching a team that was added

The name of a team is trimmed when the team is added, and the name that a team is asked for by is
taken as it is. Whoever asks by the trimmed name gets the team, with its members by username.
Whoever asks by a name with blanks at its ends gets nothing, even if it is the name that the team
was added with.
-/

namespace ReviewRota

open Http

/-! ## Tables -/

/-- A new team lists its members, next to those who stood under its identifier before and are no
members. Under a fresh identifier there is nobody of that kind. -/
theorem Tables.Unambiguous.usersOfTeam_addTeam {t : Tables} {team : Team} {members : List User}
    (ht : t.Unambiguous) (ht' : (t.addTeam team members).Unambiguous)
    (ids : (members.map User.id).Nodup) (placed : ∀ u ∈ members, u.teamId = team.id) :
    ((t.addTeam team members).usersOfTeam team.id).Perm
      (members ++ (t.usersOfTeam team.id).filter fun u => u.id ∉ members.map User.id) := by
  have hrest : ∀ u, u ∈ ((t.usersOfTeam team.id).filter fun u => u.id ∉ members.map User.id) ↔
      (t.users.find? u.id = some u ∧ u.teamId = team.id) ∧ u.id ∉ members.map User.id := by
    intro u
    rw [List.mem_filter, ht.mem_usersOfTeam, decide_eq_true_eq]
  refine ht'.usersOfTeam_perm_of ?_ ?_ ?_
  · rw [List.map_append, List.nodup_append]
    refine ⟨ids, (ht.nodup_ids_usersOfTeam team.id).sublist (List.filter_sublist.map _), ?_⟩
    rintro i hi _ hj rfl
    obtain ⟨u, hu, rfl⟩ := List.mem_map.mp hj
    exact ((hrest u).mp hu).2 hi
  · intro u hu
    rw [find?_users_addTeam ids]
    rcases List.mem_append.mp hu with hu | hu
    · exact Or.inl ⟨hu, rfl⟩
    · obtain ⟨⟨hstored, -⟩, hout⟩ := (hrest u).mp hu
      exact Or.inr ⟨hout, hstored⟩
  · intro k u hu
    obtain rfl := ht'.userKeys k u hu
    rw [List.mem_append, hrest]
    rw [find?_users_addTeam ids] at hu
    rcases hu with ⟨hu, -⟩ | ⟨hout, hu⟩
    · exact ⟨fun _ => Or.inl hu, fun _ => placed u hu⟩
    · refine ⟨fun hteam => Or.inr ⟨⟨hu, hteam⟩, hout⟩, ?_⟩
      rintro (hin | ⟨⟨-, hteam⟩, -⟩)
      · exact absurd (List.mem_map_of_mem hin) hout
      · exact hteam

/-! ## Responses -/

/-- Whatever failed, the client is not told that it went well. -/
theorem Http.Response.le_status_telling (f : Failure) : 400 ≤ (Response.telling f).status := by
  have hkinds : ∀ k : RefusalKind, 400 ≤ k.status := by
    intro k
    cases k <;> decide
  have hinternal : 400 ≤ Response.internal.status := by decide
  cases f with
  | refused r => exact hkinds r.kind
  | _ => exact hinternal

/-- The response to someone who asks for a team. -/
def Http.Response.fetched : Except Failure Roster → Response
  | .ok r => .of 200 r.answer
  | .error f => .telling f

namespace Course

variable {α : Type} {name : String} {t : Tables} {s s' : Session} {r : Request}
variable {response : Response}

/-- A request is answered well only when a value is read of it. -/
theorem of_answerReading {reading : Reading α} {go : α → Course Response}
    (served : (answerReading (desk name) r reading go).run s = some (response, s'))
    (well : response.status < 400) :
    ∃ a, reading = .value a ∧ (go a).run s = some (response, s') := by
  cases reading with
  | value a => exact ⟨a, rfl, served⟩
  | issues is =>
    unfold answerReading at served
    dsimp only at served
    split at served
    · cases served
      exact absurd well (Nat.not_lt.mpr (by decide : 400 ≤ 422))
    · obtain ⟨es, hrun⟩ := run_refuse name r (.interrupted "an issue cannot be written down") s
      cases hrun.symm.trans served
      exact absurd well (Nat.not_lt.mpr (Response.le_status_telling _))
  | unreadable =>
    cases served
    exact absurd well (Nat.not_lt.mpr (by decide : 400 ≤ 400))

theorem of_answerOutcome {outcome : Except Failure α} {go : α → Course Response}
    (served : (answerOutcome (desk name) r outcome go).run s = some (response, s'))
    (well : response.status < 400) :
    ∃ a, outcome = .ok a ∧ (go a).run s = some (response, s') := by
  cases outcome with
  | ok a => exact ⟨a, rfl, served⟩
  | error f =>
    obtain ⟨es, hrun⟩ := run_refuse name r f s
    cases hrun.symm.trans served
    exact absurd well (Nat.not_lt.mpr (Response.le_status_telling f))

/-- A request to add a team that is answered well brought a team, and the tables have it now. -/
theorem of_addTeam (hs : s.Rests name t)
    (served : (serveAt (desk name) r .addTeam).run s = some (response, s'))
    (well : response.status < 400) :
    ∃ (j : Json) (draft : TeamDraft) (roster : Roster), r.body.Holds j ∧ draft.Describes j ∧
      draft.Consistent ∧ roster = ⟨⟨s.supply.freshId.1, draft.teamName⟩,
        draft.members.map (MemberDraft.joining s.supply.freshId.1)⟩ ∧
      response = .of 201 (.object [("team", roster.answer)]) ∧
      s'.Rests name (t.addTeam roster.team roster.users) := by
  obtain ⟨draft, hread, hgo⟩ := of_answerReading served well
  obtain ⟨j, hbody, hj⟩ := readBody_eq_value.mp hread
  obtain ⟨hdescribes, hconsistent⟩ := TeamDraft.ofJson_eq_valid.mp hj
  obtain ⟨outcome, s₁, hcommand, hanswer⟩ := run_bind_eq_some.mp hgo
  obtain ⟨roster, rfl, hdone⟩ := of_answerOutcome hanswer well
  cases hdone
  cases hon : (Operation.createTeam draft).on ⟨t, s.supply⟩ with
  | mk result w =>
    obtain ⟨s₂, hrun, hs₂⟩ := Task.command_of_on (c := .createTeam draft) hs hon
    have hsame := hcommand.symm.trans hrun
    cases result with
    | error f => cases hsame
    | ok created =>
      cases hsame
      obtain ⟨hroster, htables⟩ := Program.on_createTeam_eq_ok hon
      exact ⟨j, draft, created, Body.holds_of_read hbody, hdescribes, hconsistent, hroster, rfl,
        htables ▸ hs₂⟩

/-- A team is fetched from the tables as they are. -/
theorem run_getTeam (hs : s.Rests name t) {teamName : String}
    (named : r.parameter? "team_name" = some teamName) :
    ∃ s', (serveAt (desk name) r .getTeam).run s =
      some (.fetched ((Operation.team teamName).on ⟨t, s.supply⟩).1, s') := by
  have hread : readParameter "team_name" Field.text r = .value teamName := by
    rw [readParameter, named]
    rfl
  obtain ⟨s₁, hquery, -⟩ := Task.query_keeps hs (.team teamName)
  have hgo : ∀ outcome : Except Failure Roster, ∃ s', (answerOutcome (desk name) r outcome
      fun roster => pure (.of 200 roster.answer)).run s₁ = some (.fetched outcome, s') := by
    rintro (f | roster)
    · obtain ⟨es, hrefuse⟩ := run_refuse name r f s₁
      exact ⟨_, hrefuse⟩
    · exact ⟨s₁, rfl⟩
  obtain ⟨s', hanswer⟩ := hgo ((Operation.team teamName).on ⟨t, s.supply⟩).1
  rw [serveAt, hread]
  exact ⟨s', run_bind_eq_some.mpr ⟨_, s₁, hquery, hanswer⟩⟩

end Course

/-! ## Visits -/

/-- The visit asks for the team of a name. -/
structure Visit.AsksFor (teamName : String) (g : Visit) : Prop where
  sent : g.SentTo .getTeam
  named : g.request.parameter? "team_name" = some teamName

/-- The visit gets this response in a session. -/
def Session.Answers (name : String) (s : Session) (v : Visit) (response : Response) : Prop :=
  ∃ s', (v.serve name).run s = some (response, s')

namespace Session.Rests

variable {name teamName : String} {t : Tables} {s : Session} {g : Visit}

theorem answers_fetched (hs : s.Rests name t) (asks : g.AsksFor teamName) :
    s.Answers name g (.fetched ((Operation.team teamName).on ⟨t, g.supply⟩).1) := by
  have hs' := Task.supply_rests hs g.supply
  obtain ⟨s', hrun⟩ := Course.run_getTeam hs' asks.named
  refine ⟨s', ?_⟩
  rw [Visit.run_serve, serveAny_endpoint asks.sent]
  exact hrun

theorem answers_team (hs : s.Rests name t) (asks : g.AsksFor teamName) {team : Team}
    (h : t.teamNamed? teamName = some team) :
    s.Answers name g (.of 200 (Roster.answer ⟨team, t.usersOfTeam team.id⟩)) := by
  have hanswers := hs.answers_fetched asks
  rwa [Program.on_team h] at hanswers

theorem answers_teamNotFound (hs : s.Rests name t) (asks : g.AsksFor teamName)
    (h : t.teamNamed? teamName = none) :
    s.Answers name g (.telling (.named .teamNotFound teamName)) := by
  have hanswers := hs.answers_fetched asks
  rwa [Program.on_team_of_none h] at hanswers

end Session.Rests

namespace Visits

variable {name : String} {vs : List Visit} {s : Session}

/-- **A team that was added is fetched by the trimmed form of the name that it was added with**,
whatever was requested before. The answer lists the members of the new team by username, and nobody
else unless somebody stood under the identifier of the team before there was the team. By a name
with blanks at its ends no team is found, even if it is the name that was sent. -/
theorem fetches_added (past : Visits name vs s) {t : Tables} (rests : s.Rests name t) {v : Visit}
    (sent : v.SentTo .addTeam) {response : Response} {s' : Session}
    (served : (v.serve name).run s = some (response, s')) (created : response.status = 201) :
    ∃ (j : Json) (text : String) (r : Roster) (users : List User),
      v.request.body.Holds j ∧ j.member? "team_name" = some (.text text) ∧
      r.team.name = Text.trim text ∧ response = .of 201 (.object [("team", r.answer)]) ∧
      users.Perm (r.users ++
        (t.usersOfTeam r.team.id).filter fun u => u.id ∉ r.users.map User.id) ∧
      users.Pairwise (fun a b => a.username < b.username) ∧
      (∀ g : Visit, g.AsksFor (Text.trim text) →
        s'.Answers name g (.of 200 (Roster.answer ⟨r.team, users⟩))) ∧
      (Text.trim text ≠ text → ∀ g : Visit, g.AsksFor text →
        s'.Answers name g (.telling (.named .teamNotFound text))) := by
  obtain ⟨t', hs, ht⟩ := past.addressable
  obtain rfl : t' = t := hs.unique rests
  obtain ⟨t₁, hs₁, ht₁⟩ := (past.visit served).addressable
  have hwell : response.status < 400 := created ▸ (by decide : 201 < 400)
  rw [Visit.run_serve, serveAny_endpoint sent] at served
  obtain ⟨j, draft, r, hholds, hdescribes, hconsistent, hr, hresponse, hrests⟩ :=
    Course.of_addTeam (Task.supply_rests rests v.supply) served hwell
  obtain rfl : t₁ = t'.addTeam r.team r.users := hs₁.unique hrests
  cases hdescribes with
  | @object ms _ hname _ =>
    obtain ⟨_, hlookup, text, rfl, htrim, -⟩ := hname
    refine ⟨_, text, r, (t'.addTeam r.team r.users).usersOfTeam r.team.id, hholds, hlookup,
      hr ▸ htrim, hresponse, ?_, ht₁.unambiguous.usersOfTeam_sorted _, ?_, ?_⟩
    · refine ht.unambiguous.usersOfTeam_addTeam ht₁.unambiguous ?_ ?_
      · rw [hr, MemberDraft.map_id_joining]
        exact hconsistent.ids
      · rw [hr]
        exact fun u hu => MemberDraft.teamId_of_mem_joining hu
    · intro g asks
      refine hs₁.answers_team asks (ht₁.unambiguous.teamNamed?_eq_some.mpr ⟨?_, hr ▸ htrim⟩)
      rw [Tables.find?_teams_addTeam, if_pos rfl]
    · -- a team of that name would be one whose name is not trimmed, the new one included
      intro hblank g asks
      refine hs₁.answers_teamNotFound asks (Tables.teamNamed?_eq_none.mpr ?_)
      rintro k team hteam rfl
      exact hblank (ht₁.trimmed k team hteam)

example : (Response.telling (.named .teamNotFound " edge ")).status = 404 := by decide

/-- A second team is added under a name with blanks at its ends. It takes one of the first team in. -/
def spacing : Visit where
  request := {
    method := "POST"
    path := "/team/add"
    body := .document (TeamDraft.toJson
      ⟨" edge ", [⟨.ofNat 4, "dee", true⟩, ⟨.ofNat 2, "bob", false⟩]⟩) }
  supply := { (default : Supply) with issued := 1 }

/-- A request for the team of a name. -/
def asking (teamName : String) : Visit where
  request := { method := "GET", path := "/team/get", parameters := [("team_name", teamName)] }
  supply := default

theorem asksFor_asking (teamName : String) : (asking teamName).AsksFor teamName := ⟨rfl, rfl⟩

theorem fetches_added_spacing : ∃ s response s', Visits "rota" [Service.founding] s ∧
    (spacing.serve "rota").run s = some (response, s') ∧ response.status = 201 ∧
    (∃ r : Roster, r.team.name = "edge" ∧ s'.Answers "rota" (asking "edge") (.of 200 r.answer)) ∧
    s'.Answers "rota" (asking " edge ") (.telling (.named .teamNotFound " edge ")) := by
  have hserved : (((Service.founding.serve "rota").run (.holding "rota" .empty default)).bind
      fun p => (spacing.serve "rota").run p.2).any (fun p => p.1.status = 201) = true := by
    decide +kernel
  obtain ⟨⟨response, s'⟩, hboth, hstatus⟩ := (Option.any_eq_true _ _).mp hserved
  obtain ⟨⟨_, s⟩, hfounded, hrun⟩ := Option.bind_eq_some_iff.mp hboth
  have hcreated : response.status = 201 := of_decide_eq_true hstatus
  have past := (Visits.start (Session.rests_holding "rota" .empty default)).visit hfounded
  obtain ⟨t, hs, -⟩ := past.addressable
  obtain ⟨j, text, r, users, hholds, htext, hname, -, -, -, hfetched, hmissed⟩ :=
    fetches_added past hs (v := spacing) rfl hrun hcreated
  cases hholds
  cases htext
  have htrim : Text.trim " edge " = "edge" := by decide +kernel
  rw [htrim] at hname hfetched hmissed
  exact ⟨s, response, s', past, hrun, hcreated,
    ⟨⟨r.team, users⟩, hname, hfetched _ (asksFor_asking _)⟩,
    hmissed (by decide) _ (asksFor_asking _)⟩

end Visits

end ReviewRota
