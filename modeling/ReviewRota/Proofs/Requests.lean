import ReviewRota.Proofs.Lookups

/-!
# Changing things in a database

The statements of a request that changes something do the same to the tables that the database
holds as the request does to tables. Where tables refuse a duplicate after looking for it, the
database refuses it for the constraint that it would break. The circumstances in which the service
makes its requests are listed once for all of them: in the remaining ones the two differ in the words
of a refusal or in the reading of a clock, which the calls do not let show.
-/

namespace ReviewRota

open Sql

namespace Sql.Exchange

section Changes

variable {β : Type} {Q : Outcome β} {w : World} {ws : List Write}

/-! ## Teams -/

theorem ensures_createTeam {name : String} (fresh : w.tables.teams.find? w.supply.freshId.1 = none)
    (unnamed : w.tables.teamNamed? name = none) {k : Except Failure Team → Exchange β}
    (hk : ∀ more, Ensures Q (k ((StoreCall.createTeam name).run w).1)
      ((StoreCall.createTeam name).run w).2 (ws ++ more)) :
    Ensures Q ((perform (.createTeam name)).settle k) w ws := by
  rw [StoreCall.run_createTeam unnamed] at hk
  simp only [perform, freshId, write, Dialogue.settle_bind, Dialogue.settle_put,
    Dialogue.settle_putOr]
  have hshows : ∀ {row}, Completes Schema.teams
      [(Schema.id, .id w.supply.freshId.1), (Schema.name, .text name)] row →
        row.Shows (Team.mk w.supply.freshId.1 name).data := fun h => h.given
  refine ensures_insert (t := w.tables.putTeam ⟨w.supply.freshId.1, name⟩) ?_ ?_ ?_
  · exact exists_completes _ (by simp [Schema.id, Schema.name])
      (by simp [Schema.teams, Schema.id, Schema.name])
  · intro d row hd hrow
    refine ⟨hd.key_ne_team fresh (hshows hrow), ?_⟩
    exact hd.admits_team (hd.sound.putTeam fresh unnamed) (hshows hrow)
  · intro row hrow
    have hread := entity_row (Row.team_project (hshows hrow)) (.plain .notFound)
    simp only [if_true, Mode.answer, Except.mapError, hread, Dialogue.settle_done]
    exact hk _

/-- A team name that is taken is refused by the constraint on names. -/
theorem ensures_createTeam_named {name : String} {team : Team}
    (named : w.tables.teamNamed? name = some team) {k : Except Failure Team → Exchange β}
    (hk : Ensures Q (k (.error (.plain .conflict))) ⟨w.tables, w.supply.freshId.2⟩ ws) :
    Ensures Q ((perform (.createTeam name)).settle k) w ws := by
  simp only [perform, freshId, write, Dialogue.settle_bind, Dialogue.settle_put,
    Dialogue.settle_putOr]
  refine ensures_insert_duplicate ?_ ?_ fun _ => hk
  · exact exists_completes _ (by simp [Schema.id, Schema.name])
      (by simp [Schema.teams, Schema.id, Schema.name])
  · intro d row hd hrow
    obtain ⟨r, hr, hname⟩ := hd.exists_teamNamed named
    by_cases hkey : Schema.teams.key r = Schema.teams.key row
    · exact Or.inl ⟨r, hr, hkey⟩
    · refine Or.inr fun hdistinct => hkey ?_
      -- the stored team and the new one would share a name under different keys
      have hrow : row.value Schema.name.name = .text name := hrow.given _ (.tail _ (.head _))
      rw [hdistinct _ (.head _) r row ((Contents.put_self ..).mpr (Or.inr ⟨hr, hkey⟩))
        ((Contents.put_self ..).mpr (Or.inl rfl))]
      intro c hc
      obtain rfl : c = Schema.name.name := List.mem_singleton.mp hc
      rw [hname, hrow]
      exact ⟨rfl, by simp⟩

/-! ## Users -/

theorem ensures_createUser {u : User} {team : Team} (fresh : w.tables.users.find? u.id = none)
    (free : w.tables.usernameTaken u = false) (hteam : w.tables.teams.find? u.teamId = some team)
    {k : Except Failure User → Exchange β}
    (hk : ∀ more, Ensures Q (k (.ok u)) ⟨w.tables.putUser u, w.supply⟩ (ws ++ more)) :
    Ensures Q ((perform (.createUser u.username u.isActive u.teamId (some u.id))).settle k) w ws := by
  simp only [perform, write, Dialogue.settle_bind, Dialogue.settle_pure, Dialogue.settle_putOr]
  refine ensures_insert (t := w.tables.putUser u) ?_ ?_ ?_
  · exact exists_completes _ (by simp [Schema.id, Schema.username, Schema.isActive, Schema.teamId])
      (by simp [Schema.users, Schema.id, Schema.username, Schema.isActive, Schema.teamId])
  · intro d row hd hrow
    have hshows : row.Shows u.data := hrow.given
    exact ⟨hd.key_ne_user fresh hshows, hd.admits_user (hd.sound.putUser free hteam) hshows⟩
  · intro row hrow
    have hshows : row.Shows u.data := hrow.given
    have hread := entity_row (Row.user_project hshows) (.plain .notFound)
    simp only [if_true, Mode.answer, Except.mapError, hread, Dialogue.settle_done]
    exact hk _

/-- What a row shows after an update: new values, and the old ones in the columns that the update
leaves alone. -/
theorem shows_of_changes {tb : Table} {values : List (Column × Assigned)} {old new : Row}
    {data : List (Column × Datum)} (h : Changes tb values old new)
    (hdata : ∀ v ∈ data, (v.1, .value v.2) ∈ values ∨ (v.1 ∈ tb.columns ∧
      (∀ x ∈ values, x.1.name ≠ v.1.name) ∧ old.value v.1.name = v.2)) : new.Shows data := by
  intro v hv
  rcases hdata v hv with hgiven | ⟨hcolumn, hleft, hold⟩
  · exact h.given _ _ hgiven
  · exact (h.kept _ hcolumn hleft).trans hold

/-- An update of a user by identifier. -/
theorem ensures_updateUserRow {old u : User} {values : List (Column × Assigned)}
    (hold : w.tables.users.find? u.id = some old)
    (sound : w.tables.Sound → (w.tables.putUser u).Sound)
    (hrow : ∀ r, ∃ r', Changes Schema.users values r r')
    (hnew : ∀ r r', r.Shows old.data → Changes Schema.users values r r' → r'.Shows u.data)
    {k : Except Failure User → Exchange β}
    (hk : ∀ more, Ensures Q (k (.ok u)) ⟨w.tables.putUser u, w.supply⟩ (ws ++ more)) :
    Ensures Q ((write .one (.update Schema.users values [.equals Schema.id (.id u.id)] true) >>=
      entity Row.user (.about .notFound u.id)).settle k) w ws := by
  simp only [write, Dialogue.settle_bind, Dialogue.settle_putOr]
  refine ensures_update (t := w.tables.putUser u) (fun d hd => hold ▸ hd.picks_user u.id) hrow ?_ ?_
  · intro d r r' hd hr hchanges
    exact hd.admits_user (sound hd.sound) (hnew r r' hr hchanges)
  · intro r r' hr hchanges
    have hread := entity_row (Row.user_project (hnew r r' hr hchanges)) (.about .notFound u.id)
    simp only [if_true, Mode.answer, Except.mapError, hread, Dialogue.settle_done]
    exact hk _

theorem ensures_setActive {u : User} (hu : w.tables.users.find? u.id = some u) (isActive : Bool)
    {k : Except Failure User → Exchange β}
    (hk : ∀ more, Ensures Q (k (.ok { u with isActive }))
      ⟨w.tables.putUser { u with isActive }, w.supply⟩ (ws ++ more)) :
    Ensures Q ((perform (.setActive u.id isActive)).settle k) w ws := by
  have hchanges : changes Schema.users [(Schema.isActive, .truth isActive)] =
      [(Schema.isActive, .value (.truth isActive)), (Schema.modified, .now)] := rfl
  rw [perform, updateById, hchanges]
  refine ensures_updateUserRow (u := { u with isActive }) hu ?_ ?_ ?_ hk
  · intro hsound
    obtain ⟨team, hteam⟩ := hsound.userTeams u.id u hu
    exact hsound.putUser (hsound.unambiguous.usernameTaken hu rfl rfl rfl) hteam
  · intro r
    exact exists_changes _ r (by simp [Schema.isActive, Schema.modified])
      (by simp [Schema.users, Schema.isActive, Schema.modified]) (by simp [Schema.users, Schema.id])
      (by simp [Schema.users, Schema.isActive, Schema.modified])
  · intro r r' hr hr'
    have hvalue : ∀ v ∈ u.data, r.value v.1.name = v.2 := hr
    simp only [User.data, List.forall_mem_cons] at hvalue
    obtain ⟨hid, hname, -, hteam, -⟩ := hvalue
    refine shows_of_changes hr' ?_
    simp [User.data, Schema.users, Schema.id, Schema.username, Schema.isActive, Schema.teamId,
      Schema.modified] at hid hname hteam ⊢
    exact ⟨hid, hname, hteam⟩

theorem ensures_setActive_of_none {id : Identifier} (hu : w.tables.users.find? id = none)
    (isActive : Bool) {k : Except Failure User → Exchange β}
    (hk : Ensures Q (k (.error (.about .notFound id))) w ws) :
    Ensures Q ((perform (.setActive id isActive)).settle k) w ws := by
  simp only [perform, write, updateById, Dialogue.settle_bind, Dialogue.settle_putOr]
  refine ensures_update_none (fun d hd => hu ▸ hd.picks_user id) ?_
  exact hk

theorem ensures_updateUser {old u : User} (hold : w.tables.users.find? u.id = some old)
    (hid : old.id = u.id) (free : w.tables.usernameTaken u = false) {team : Team}
    (hteam : w.tables.teams.find? u.teamId = some team) {k : Except Failure User → Exchange β}
    (hk : ∀ more, Ensures Q (k (.ok u)) ⟨w.tables.putUser u, w.supply⟩ (ws ++ more)) :
    Ensures Q ((perform (.updateUser u)).settle k) w ws := by
  have hchanges : changes Schema.users [(Schema.username, .text u.username),
      (Schema.isActive, .truth u.isActive), (Schema.teamId, .id u.teamId)] =
        [(Schema.username, .value (.text u.username)),
          (Schema.isActive, .value (.truth u.isActive)), (Schema.teamId, .value (.id u.teamId)),
          (Schema.modified, .now)] := rfl
  rw [perform, updateById, hchanges]
  refine ensures_updateUserRow hold (fun hsound => hsound.putUser free hteam) ?_ ?_ hk
  · intro r
    exact exists_changes _ r
      (by simp [Schema.username, Schema.isActive, Schema.teamId, Schema.modified])
      (by simp [Schema.users, Schema.username, Schema.isActive, Schema.teamId, Schema.modified])
      (by simp [Schema.users, Schema.id])
      (by simp [Schema.users, Schema.username, Schema.isActive, Schema.teamId, Schema.modified])
  · intro r r' hr hr'
    have hrow : r.value Schema.id.name = .id u.id := hid ▸ hr.user_id
    refine shows_of_changes hr' ?_
    simp [User.data, Schema.users, Schema.id, Schema.username, Schema.isActive, Schema.teamId,
      Schema.modified] at hrow ⊢
    exact hrow

/-! ## Pull requests -/

theorem ensures_createPullRequest {id authorId : Identifier} {author : User}
    (fresh : w.tables.pullRequests.find? id = none)
    (hauthor : w.tables.users.find? authorId = some author) (name : String)
    {k : Except Failure PullRequest → Exchange β}
    (hk : ∀ more, Ensures Q (k (.ok (.opening id name authorId w.supply.readClock.1)))
      ⟨w.tables.putPullRequest (.opening id name authorId w.supply.readClock.1),
        w.supply.readClock.2⟩ (ws ++ more)) :
    Ensures Q ((perform (.createPullRequest id name authorId)).settle k) w ws := by
  simp only [perform, clock, write, Dialogue.settle_bind, Dialogue.settle_put,
    Dialogue.settle_putOr]
  have hshows : ∀ {row}, Completes Schema.pullRequests [(Schema.id, .id id),
      (Schema.name, .text name), (Schema.authorId, .id authorId), (Schema.status, .status .opened),
      (Schema.createdAt, .instant w.supply.readClock.1)] row →
        row.Shows (PullRequest.opening id name authorId w.supply.readClock.1).data := by
    intro row h
    have hempty : row.value Schema.mergedAt.name = .null :=
      h.empty _ (by simp [Schema.pullRequests]) rfl
        (by simp [Schema.id, Schema.name, Schema.authorId, Schema.status, Schema.createdAt,
          Schema.mergedAt])
    have hgiven := h.given
    simp only [List.forall_mem_cons] at hgiven
    simp only [Row.Shows, PullRequest.data, PullRequest.opening, List.forall_mem_cons]
    obtain ⟨hid, hname, hauthor, hstatus, hcreated, hnil⟩ := hgiven
    exact ⟨hid, hname, hauthor, hstatus, hcreated, hempty, hnil⟩
  refine ensures_insert
    (t := w.tables.putPullRequest (.opening id name authorId w.supply.readClock.1)) ?_ ?_ ?_
  · exact exists_completes _
      (by simp [Schema.id, Schema.name, Schema.authorId, Schema.status, Schema.createdAt])
      (by simp [Schema.pullRequests, Schema.id, Schema.name, Schema.authorId, Schema.status,
        Schema.createdAt])
  · intro d row hd hrow
    exact ⟨hd.key_ne_pullRequest fresh (hshows hrow),
      hd.admits_pullRequest (hd.sound.putPullRequest hauthor) (hshows hrow)⟩
  · intro row hrow
    have hread := entity_row (Row.pullRequest_project (hshows hrow)) (.plain .notFound)
    simp only [if_true, Mode.answer, Except.mapError, hread, Dialogue.settle_done]
    exact hk _

theorem ensures_createPullRequest_exists {id : Identifier} {p : PullRequest}
    (hp : w.tables.pullRequests.find? id = some p) (name : String) (authorId : Identifier)
    {k : Except Failure PullRequest → Exchange β}
    (hk : Ensures Q (k (.error (.plain .conflict))) ⟨w.tables, w.supply.readClock.2⟩ ws) :
    Ensures Q ((perform (.createPullRequest id name authorId)).settle k) w ws := by
  simp only [perform, clock, write, Dialogue.settle_bind, Dialogue.settle_put,
    Dialogue.settle_putOr]
  refine ensures_insert_duplicate ?_ ?_ fun _ => hk
  · exact exists_completes _
      (by simp [Schema.id, Schema.name, Schema.authorId, Schema.status, Schema.createdAt])
      (by simp [Schema.pullRequests, Schema.id, Schema.name, Schema.authorId, Schema.status,
        Schema.createdAt])
  · intro d row hd hrow
    obtain ⟨r, hr, hid⟩ := hd.exists_pullRequest hp
    have hrow : row.value Schema.id.name = .id id := hrow.given _ (.head _)
    exact Or.inl ⟨r, hr, congrArg (fun v => [v]) (hid.trans hrow.symm)⟩

theorem ensures_setMerged {p : PullRequest} (hp : w.tables.pullRequests.find? p.id = some p)
    (hopen : p.status = .opened) {k : Except Failure PullRequest → Exchange β}
    (hk : ∀ row, row.Shows (p.mergedOn w.supply.readClock.1).data →
      Ensures Q (k (.ok (p.mergedOn w.supply.readClock.1)))
        ⟨w.tables.putPullRequest (p.mergedOn w.supply.readClock.1), w.supply.readClock.2⟩
        (ws ++ [.replace Schema.pullRequests row])) :
    Ensures Q ((perform (.setMerged p.id)).settle k) w ws := by
  have hchanges : changes Schema.pullRequests [(Schema.status, .status .merged),
      (Schema.mergedAt, .instant w.supply.readClock.1)] =
        [(Schema.status, .value (.status .merged)),
          (Schema.mergedAt, .value (.instant w.supply.readClock.1))] := rfl
  simp only [perform, clock, write, Dialogue.settle_bind, Dialogue.settle_put,
    Dialogue.settle_putOr]
  show Ensures Q (.ask (.send .one (.update Schema.pullRequests (changes Schema.pullRequests
    [(Schema.status, .status .merged), (Schema.mergedAt, .instant w.supply.readClock.1)]) _ true))
    _) ⟨w.tables, w.supply.readClock.2⟩ ws
  rw [hchanges]
  have hshows : ∀ {r r'}, r.Shows p.data → Changes Schema.pullRequests
      [(Schema.status, .value (.status .merged)),
        (Schema.mergedAt, .value (.instant w.supply.readClock.1))] r r' →
      r'.Shows (p.mergedOn w.supply.readClock.1).data := by
    intro r r' hr hr'
    simp only [Row.Shows, PullRequest.data, List.forall_mem_cons] at hr
    obtain ⟨hid, hname, hauthor, -, hcreated, -⟩ := hr
    refine shows_of_changes hr' ?_
    simp [PullRequest.data, PullRequest.mergedOn, Schema.pullRequests, Schema.id, Schema.name,
      Schema.authorId, Schema.status, Schema.createdAt, Schema.mergedAt] at hid hname hauthor hcreated ⊢
    exact ⟨hid, hname, hauthor, hcreated⟩
  have hpick : ∀ d : Contents, d.Holds w.tables → Picks d Schema.pullRequests
      [.equals Schema.id (.id p.id), .equals Schema.status (.status .opened)] PullRequest.data
      (some p) := by
    intro d hd
    have hpick := hd.picks_open p.id
    rwa [hp, Option.filter_some, if_pos (by simp [hopen])] at hpick
  refine ensures_update (t := w.tables.putPullRequest (p.mergedOn w.supply.readClock.1)) hpick
    ?_ ?_ ?_
  · intro r
    exact exists_changes _ r (by simp [Schema.status, Schema.mergedAt])
      (by simp [Schema.pullRequests, Schema.status, Schema.mergedAt])
      (by simp [Schema.pullRequests, Schema.id])
      (by simp [Schema.pullRequests, Schema.status, Schema.mergedAt])
  · intro d r r' hd hr hchange
    obtain ⟨author, hauthor⟩ := hd.sound.authors p.id p hp
    exact hd.admits_pullRequest (hd.sound.putPullRequest hauthor) (hshows hr hchange)
  · intro r r' hr hchange
    have hread := checked_of_read (Row.pullRequest_project (hshows hr hchange))
    simp only [if_true, Mode.answer, Except.mapError, Answer.row?, Dialogue.settle_ofExcept, hread,
      Dialogue.settle_done]
    exact hk r' (hshows hr hchange)

/-! ## Reviewers -/

theorem ensures_assign {p u : Identifier} {pr : PullRequest} {user : User}
    (hfree : (p, u) ∉ w.tables.reviewers) (hp : w.tables.pullRequests.find? p = some pr)
    (hu : w.tables.users.find? u = some user) {k : Except Failure Unit → Exchange β}
    (hk : ∀ more, Ensures Q (k (.ok ()))
      ⟨{ w.tables with reviewers := w.tables.reviewers.insert (p, u) }, w.supply⟩ (ws ++ more)) :
    Ensures Q ((perform (.assign p u)).settle k) w ws := by
  simp only [perform, write, Dialogue.settle_bind, Dialogue.settle_putOr]
  refine ensures_insert
    (t := { w.tables with reviewers := w.tables.reviewers.insert (p, u) }) ?_ ?_ ?_
  · exact exists_completes _ (by simp [Schema.pullRequestId, Schema.userId])
      (by simp [Schema.reviewers, Schema.pullRequestId, Schema.userId])
  · intro d row hd hrow
    have hshows : row.Shows (Pairs.data (p, u)) := hrow.given
    exact ⟨hd.key_ne_pair hfree hshows, hd.admits_pair hp hu hshows⟩
  · intro row _
    exact hk _

theorem ensures_unassign (p u : Identifier) {k : Except Failure Unit → Exchange β}
    (hk : ∀ more, Ensures Q (k ((StoreCall.unassign p u).run w).1)
      ((StoreCall.unassign p u).run w).2 (ws ++ more)) :
    Ensures Q ((perform (.unassign p u)).settle k) w ws := by
  simp only [perform, send, Dialogue.settle_bind, Dialogue.settle_put]
  refine ensures_delete
    (t := { w.tables with reviewers := w.tables.reviewers.erase (p, u) }) (by decide)
    (fun d hd => hd.picks_pair p u) ?_ ?_ ?_
  · intro hnone
    have hout : (p, u) ∉ w.tables.reviewers := by simpa using hnone
    simp only [StoreCall.run, if_neg hout] at hk
    have hdone := hk []
    rw [List.append_nil] at hdone
    exact hdone
  · intro d x old hd hx hold
    obtain ⟨-, hsome⟩ := Option.ite_none_right_eq_some.mp hx
    obtain rfl := Option.some.inj hsome
    rw [hold.pair_key]
    exact hd.removePair (p, u)
  · intro x old hx hold
    obtain ⟨hin, -⟩ := Option.ite_none_right_eq_some.mp hx
    simp only [StoreCall.run, if_pos hin] at hk
    exact hk _

end Changes

end Sql.Exchange

/-! ## All requests -/

namespace StoreCall

/-- The circumstances in which a database replies to a request just as tables do. Pull requests come
in any order. -/
def Agrees (w : World) : StoreCall → Prop
  | createTeam name =>
    w.tables.teams.find? w.supply.freshId.1 = none ∧ w.tables.teamNamed? name = none
  | createUser username isActive teamId id? => ∃ id team, id? = some id ∧
      w.tables.users.find? id = none ∧
      w.tables.usernameTaken ⟨id, username, isActive, teamId⟩ = false ∧
      w.tables.teams.find? teamId = some team
  | setActive id _ => ∀ u, w.tables.users.find? id = some u → u.id = id
  | updateUser u => ∃ old team, w.tables.users.find? u.id = some old ∧ old.id = u.id ∧
      w.tables.usernameTaken u = false ∧ w.tables.teams.find? u.teamId = some team
  | createPullRequest id _ authorId => w.tables.pullRequests.find? id = none ∧
      ∃ author, w.tables.users.find? authorId = some author
  | pullRequests _ => False
  | setMerged id => ∃ p, w.tables.pullRequests.find? id = some p ∧ p.id = id ∧ p.status = .opened
  | assign p u => (p, u) ∉ w.tables.reviewers ∧
      (∃ pr, w.tables.pullRequests.find? p = some pr) ∧ ∃ user, w.tables.users.find? u = some user
  | _ => True

/-- A request for pull requests by different identifiers. -/
def Lists : StoreCall → Prop
  | pullRequests cells => ∃ ids : List Identifier, cells = ids.map .identifier ∧ ids.Nodup
  | _ => False

/-- What a request for pull requests may be answered: what tables reply, in any order. -/
def MayReply (w : World) : (q : StoreCall) → Except Failure q.Reply → Prop
  | pullRequests cells, r =>
    ∃ ps : List PullRequest, r = .ok ps ∧ ps.Perm ((Cell.ids cells).filterMap w.tables.pullRequests.find?)
  | _, _ => False

/-- The circumstances in which a request is refused as a conflict, in one way or another. -/
def Clashes (w : World) : StoreCall → Prop
  | createTeam name => ∃ team, w.tables.teamNamed? name = some team
  | createPullRequest id .. => ∃ p, w.tables.pullRequests.find? id = some p
  | _ => False

theorem Lists.run_eq {w : World} {q : StoreCall} (h : q.Lists) : (q.run w).2 = w := by
  cases q with
  | pullRequests cells => rfl
  | _ => exact h.elim

theorem Clashes.run {w : World} {q : StoreCall} (h : q.Clashes w) :
    ∃ f, f.isA .conflict = true ∧ q.run w = (.error f, w) := by
  cases q with
  | createTeam name =>
    obtain ⟨team, hteam⟩ := h
    exact ⟨_, rfl, run_createTeam_named hteam⟩
  | createPullRequest id name authorId =>
    obtain ⟨p, hp⟩ := h
    exact ⟨_, rfl, run_createPullRequest_exists hp name authorId⟩
  | _ => exact h.elim

end StoreCall

namespace Sql.Exchange

variable {β : Type} {Q : Outcome β} {w : World} {ws : List Write} {q : StoreCall}
  {k : Except Failure q.Reply → Exchange β}

/-- **A database that holds tables replies to a request as the tables do**, and holds what the
request makes of them. -/
theorem ensures_perform (h : q.Agrees w)
    (hk : ∀ more, Ensures Q (k (q.run w).1) (q.run w).2 (ws ++ more)) :
    Ensures Q ((perform q).settle k) w ws := by
  have hlook : (q.run w).2 = w → Ensures Q (k (q.run w).1) w ws := by
    intro hw
    have hdone := hk []
    rwa [List.append_nil, hw] at hdone
  cases q with
  | createTeam name => exact ensures_createTeam h.1 h.2 hk
  | teamNamed name => exact ensures_teamNamed name (hlook (by rw [run_teamNamed]))
  | team id => exact ensures_team id (hlook (by rw [run_team]))
  | createUser username isActive teamId id? =>
    obtain ⟨id, team, rfl, hfresh, hfree, hteam⟩ := h
    have hrun := StoreCall.run_createUser (u := ⟨id, username, isActive, teamId⟩) hfresh hfree
    rw [hrun] at hk
    exact ensures_createUser (u := ⟨id, username, isActive, teamId⟩) hfresh hfree hteam hk
  | user id => exact ensures_user id (hlook (by rw [run_user]))
  | setActive id isActive =>
    cases hu : w.tables.users.find? id with
    | none =>
      rw [StoreCall.run_setActive_of_none hu] at hlook
      exact ensures_setActive_of_none hu isActive (hlook rfl)
    | some u =>
      obtain rfl := h u hu
      rw [StoreCall.run_setActive hu] at hk
      exact ensures_setActive hu isActive hk
  | usersOfTeam teamId => exact ensures_usersOfTeam teamId (hlook rfl)
  | updateUser u =>
    obtain ⟨old, team, hold, hid, hfree, hteam⟩ := h
    rw [StoreCall.run_updateUser hold hfree] at hk
    exact ensures_updateUser hold hid hfree hteam hk
  | createPullRequest id name authorId =>
    obtain ⟨hfresh, author, hauthor⟩ := h
    rw [StoreCall.run_createPullRequest hfresh hauthor] at hk
    exact ensures_createPullRequest hfresh hauthor name hk
  | pullRequest id lock => exact ensures_pullRequest id lock (hlook (by rw [run_pullRequest]))
  | pullRequests ids => exact h.elim
  | setMerged id =>
    obtain ⟨p, hp, rfl, hopen⟩ := h
    rw [StoreCall.run_setMerged hp hopen] at hk
    exact ensures_setMerged hp hopen fun row _ => hk _
  | assign p u =>
    obtain ⟨hfree, ⟨pr, hp⟩, user, hu⟩ := h
    rw [StoreCall.run_assign hfree hp hu] at hk
    exact ensures_assign hfree hp hu hk
  | unassign p u => exact ensures_unassign p u hk
  | reviewersOf p => exact ensures_reviewersOf p (hlook rfl)
  | reviewedBy u => exact ensures_reviewedBy u (hlook rfl)

/-- Pull requests are found in a database as well, in whatever order. -/
theorem ensures_perform_of_lists (h : q.Lists) (hk : ∀ r, q.MayReply w r → Ensures Q (k r) w ws) :
    Ensures Q ((perform q).settle k) w ws := by
  cases q with
  | pullRequests cells =>
    obtain ⟨ids, rfl, hids⟩ := h
    refine ensures_pullRequests hids fun ps hps => hk _ ⟨ps, rfl, ?_⟩
    rwa [Cell.ids_map_identifier]
  | _ => exact h.elim

/-- A clash is a conflict in a database as well. -/
theorem ensures_perform_of_clash (h : q.Clashes w)
    (hk : ∀ supply, Ensures Q (k (.error (.plain .conflict))) ⟨w.tables, supply⟩ ws) :
    Ensures Q ((perform q).settle k) w ws := by
  cases q with
  | createTeam name =>
    obtain ⟨team, hteam⟩ := h
    exact ensures_createTeam_named hteam (hk _)
  | createPullRequest id name authorId =>
    obtain ⟨p, hp⟩ := h
    exact ensures_createPullRequest_exists hp name authorId (hk _)
  | _ => exact h.elim

end Sql.Exchange

end ReviewRota
