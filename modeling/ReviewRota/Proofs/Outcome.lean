import ReviewRota.Proofs.Programs
import ReviewRota.Proofs.Coherent
import ReviewRota.Proofs.Selection

/-!
# What commands come to

For each command the cases that it distinguishes, with the answer and the tables after it in every
case. Refusals come first and need nothing but the tables as they are. The cases that go well need
tables in order: some steps after the first change could fail, and it is the order that rules this
out.
-/

namespace ReviewRota

open Operation

/-! ## Drafts -/

/-- A member as a user of a team. -/
def MemberDraft.joining (teamId : Identifier) (m : MemberDraft) : User :=
  ⟨m.userId, m.username, m.isActive, teamId⟩

theorem MemberDraft.map_id_joining (teamId : Identifier) (ms : List MemberDraft) :
    (ms.map (joining teamId)).map User.id = ms.map userId := by
  rw [List.map_map]
  rfl

theorem MemberDraft.map_username_joining (teamId : Identifier) (ms : List MemberDraft) :
    (ms.map (joining teamId)).map User.username = ms.map username := by
  rw [List.map_map]
  rfl

theorem MemberDraft.teamId_of_mem_joining {teamId : Identifier} {ms : List MemberDraft} {u : User}
    (hu : u ∈ ms.map (joining teamId)) : u.teamId = teamId := by
  obtain ⟨m, -, rfl⟩ := List.mem_map.mp hu
  rfl

/-- The rule about the members of a draft. -/
structure TeamDraft.Consistent (d : TeamDraft) : Prop where
  ids : (d.members.map MemberDraft.userId).Nodup
  usernames : (d.members.map MemberDraft.username).Nodup

/-- The rule is the only thing that the check asks for, and a draft that follows it stays as it is. -/
theorem TeamDraft.checkMembers_eq_valid {j : Json} {t t' : TeamDraft} :
    checkMembers j t = .valid t' ↔ t = t' ∧ t.Consistent := by
  unfold checkMembers
  split
  · rename_i hids
    exact ⟨nofun, fun h => absurd h.2.ids hids⟩
  split
  · rename_i hnames
    exact ⟨nofun, fun h => absurd h.2.usernames hnames⟩
  · rename_i hids hnames
    have hconsistent : t.Consistent := ⟨not_not.mp hids, not_not.mp hnames⟩
    exact ⟨fun h => ⟨Checked.valid.inj h, hconsistent⟩, fun h => h.1 ▸ rfl⟩

/-- Whatever draft is read from a document follows the rule. -/
theorem TeamDraft.consistent_of_ofJson {refusal : IssueKind} {j : Json} {d : TeamDraft}
    (h : TeamDraft.ofJson refusal j = .valid d) : d.Consistent := by
  unfold TeamDraft.ofJson at h
  obtain ⟨t, -, hrule⟩ := Checked.andThen_eq_valid.mp h
  obtain ⟨rfl, hconsistent⟩ := checkMembers_eq_valid.mp hrule
  exact hconsistent

/-! ## Pools -/

namespace Tables

variable {t : Tables}

/-- The users who can review what an author creates now. -/
def pool (author : User) (t : Tables) : List Identifier :=
  Selection.eligible (t.usersOfTeam author.teamId) [author.id]

/-- The users who can take the place of a reviewer of a pull request now. -/
def substitutes (p : PullRequest) (author : User) (old : Identifier) (t : Tables) :
    List Identifier :=
  Selection.eligible (t.usersOfTeam author.teamId)
    (p.authorId :: old :: t.reviewers.reviewersOf p.id)

theorem Unambiguous.mem_eligible (h : t.Unambiguous) {teamId i : Identifier}
    {exclude : List Identifier} :
    i ∈ Selection.eligible (t.usersOfTeam teamId) exclude ↔
      i ∉ exclude ∧
        ∃ u, t.users.find? i = some u ∧ u.isActive = true ∧ u.teamId = teamId := by
  rw [Selection.mem_eligible]
  constructor
  · rintro ⟨u, hu, hactive, hout, rfl⟩
    obtain ⟨hfound, hteam⟩ := h.mem_usersOfTeam.mp hu
    exact ⟨hout, u, hfound, hactive, hteam⟩
  · rintro ⟨hout, u, hu, hactive, hteam⟩
    obtain rfl : u.id = i := h.userKeys i u hu
    exact ⟨u, h.mem_usersOfTeam.mpr ⟨hu, hteam⟩, hactive, hout, rfl⟩

theorem Unambiguous.nodup_pool (h : t.Unambiguous) (author : User) : (t.pool author).Nodup :=
  Selection.nodup_eligible (h.nodup_ids_usersOfTeam _) _

theorem Unambiguous.of_mem_pool (h : t.Unambiguous) {author : User} {i : Identifier}
    (hi : i ∈ t.pool author) : i ≠ author.id ∧ ∃ u, t.users.find? i = some u := by
  obtain ⟨hout, u, hu, -⟩ := h.mem_eligible.mp hi
  constructor
  · intro he
    exact hout (List.mem_singleton.mpr he)
  · exact ⟨u, hu⟩

theorem Unambiguous.of_mem_substitutes (h : t.Unambiguous) {p : PullRequest} {author : User}
    {old new : Identifier} (hn : new ∈ t.substitutes p author old) :
    new ≠ p.authorId ∧ new ≠ old ∧ (p.id, new) ∉ t.reviewers ∧
      ∃ u, t.users.find? new = some u := by
  obtain ⟨hout, u, hu, -⟩ := h.mem_eligible.mp hn
  simp only [List.mem_cons, Pairs.mem_reviewersOf, not_or] at hout
  obtain ⟨hauthor, hold, hfree⟩ := hout
  exact ⟨hauthor, hold, hfree, u, hu⟩

end Tables

namespace Program

variable {w : World}

/-! ## Reading and merging -/

theorem on_findPullRequest {id : Identifier} {p : PullRequest}
    (h : w.tables.pullRequests.find? id = some p) (lock : Bool) :
    (findPullRequest id lock).on w = (.ok p, w) :=
  on_putOr_of_ok (StoreCall.run_pullRequest h lock) _

theorem on_findPullRequest_of_none {id : Identifier}
    (h : w.tables.pullRequests.find? id = none) (lock : Bool) :
    (findPullRequest id lock).on w = (.error (.about .pullRequestNotFound id), w) :=
  on_putOr_of_refused (StoreCall.run_pullRequest_of_none h lock) rfl _

theorem on_merge_unknown {id : Identifier} (h : w.tables.pullRequests.find? id = none) :
    (merge id).on w = (.error (.about .pullRequestNotFound id), w) :=
  on_bind_of_error (on_findPullRequest_of_none h true) _

/-- Merging a merged pull request only reads it. -/
theorem on_merge_merged {id : Identifier} {p : PullRequest}
    (h : w.tables.pullRequests.find? id = some p) (hm : p.status = .merged) :
    (merge id).on w = (.ok p, w) := by
  have hmerged : p.isMerged = true := by simp [PullRequest.isMerged, hm]
  rw [merge, on_bind_of_ok (on_findPullRequest h true), if_pos hmerged]
  rfl

theorem on_merge_opened {p : PullRequest} (h : w.tables.pullRequests.find? p.id = some p)
    (ho : p.status = .opened) : (merge p.id).on w =
      (.ok (p.mergedOn w.supply.readClock.1),
        ⟨w.tables.putPullRequest (p.mergedOn w.supply.readClock.1),
          w.supply.readClock.2⟩) := by
  have hopen : ¬ p.isMerged = true := by simp [PullRequest.isMerged, ho]
  rw [merge, on_bind_of_ok (on_findPullRequest h true), if_neg hopen]
  exact on_putOr_of_ok (StoreCall.run_setMerged h ho) _

/-- The reviewers that tables tell of are shown as they are told. -/
theorem on_shown_bind {α : Type} (p : Identifier) (ps : Pairs) (k : List Identifier → Program α) :
    on (Dialogue.ofExcept (Cell.shown ((ps.reviewersOf p).map .identifier)) >>= k) w =
      (k (ps.reviewersOf p)).on w := by
  rw [Pairs.shown_reviewersOf]
  rfl

/-- A pull request is read together with its reviewers. -/
theorem on_review {p : PullRequest} (h : w.tables.pullRequests.find? p.id = some p) :
    (review p.id).on w = (.ok ⟨p, w.tables.reviewers.reviewersOf p.id⟩, w) := by
  rw [review, on_bind_of_ok (on_findPullRequest h false), on_bind_of_ok (on_put _ _)]
  exact on_shown_bind _ _ _

/-! ## Activity -/

theorem on_setActive_unknown {id : Identifier} (h : w.tables.users.find? id = none)
    (isActive : Bool) :
    (setActive id isActive).on w = (.error (.about .userNotFound id), w) := by
  have hrefused := StoreCall.run_setActive_of_none h isActive
  exact on_bind_of_error (on_putOr_of_refused hrefused rfl _) _

/-- The team is looked up after the change; it is there because users have teams. -/
theorem on_setActive_known {u : User} {team : Team}
    (h : w.tables.users.find? u.id = some u)
    (hteam : w.tables.teams.find? u.teamId = some team) (isActive : Bool) :
    (setActive u.id isActive).on w = (.ok ⟨u.id, u.username, isActive, team.name⟩,
      ⟨w.tables.putUser { u with isActive }, w.supply⟩) := by
  have hchange := StoreCall.run_setActive h isActive
  have hreply : (StoreCall.team u.teamId).run
      ⟨w.tables.putUser { u with isActive }, w.supply⟩ =
        (.ok team, ⟨w.tables.putUser { u with isActive }, w.supply⟩) :=
    StoreCall.run_team hteam
  rw [setActive, on_bind_of_ok (on_putOr_of_ok hchange _)]
  exact on_bind_of_ok ((on_put _ _).trans hreply) _

/-! ## Opening a pull request -/

/-- Reviewers who are free, stored and all different can be assigned one after the other. -/
theorem on_each_assign {p : Identifier} {pr : PullRequest} {us : List Identifier}
    (hp : w.tables.pullRequests.find? p = some pr) (hn : us.Nodup)
    (hfree : ∀ u ∈ us, (p, u) ∉ w.tables.reviewers)
    (hus : ∀ u ∈ us, ∃ user, w.tables.users.find? u = some user) :
    on (.each (fun u => StoreCall.put (.assign p u)) us) w = (.ok (us.map fun _ => ()),
      ⟨{ w.tables with reviewers := w.tables.reviewers.insertAll p us }, w.supply⟩) := by
  induction us generalizing w with
  | nil => rfl
  | cons u us ih =>
    rw [List.nodup_cons] at hn
    obtain ⟨hfirst, hrest⟩ := hn
    obtain ⟨user, huser⟩ := hus u List.mem_cons_self
    have hstep := StoreCall.run_assign (hfree u List.mem_cons_self) hp huser
    refine on_each_cons_of_ok ((on_put _ _).trans hstep) (ih hp hrest ?_ ?_)
    · -- the pair that has just been put in is not among those to come
      intro v hv hm
      rcases Pairs.mem_insert.mp hm with he | hm
      · have hvu : v = u := congrArg Prod.snd he
        exact hfirst (hvu ▸ hv)
      · exact hfree v (List.mem_cons_of_mem u hv) hm
    · intro v hv
      exact hus v (List.mem_cons_of_mem u hv)

theorem on_openPullRequest_noAuthor {id authorId : Identifier}
    (h : w.tables.users.find? authorId = none) (name : String) (draws : Draws)
    (limit : Int) :
    (openPullRequest id name authorId draws limit).on w =
      (.error (.about .authorNotFound authorId), w) := by
  have hrefused := StoreCall.run_user_of_none h
  exact on_bind_of_error (on_putOr_of_refused hrefused rfl _) _

theorem on_openPullRequest_exists {id authorId : Identifier} {author : User}
    {p : PullRequest} (ha : w.tables.users.find? authorId = some author)
    (hp : w.tables.pullRequests.find? id = some p) (name : String) (draws : Draws)
    (limit : Int) :
    (openPullRequest id name authorId draws limit).on w =
      (.error (.about .pullRequestExists id), w) := by
  have hrefused := StoreCall.run_createPullRequest_exists hp name authorId
  rw [openPullRequest, on_bind_of_ok (on_putOr_of_ok (StoreCall.run_user ha) _)]
  exact on_bind_of_error (on_putOr_of_refused hrefused rfl _) _

theorem on_openPullRequest_new (hi : w.tables.Coherent) {id : Identifier} {author : User}
    (ha : w.tables.users.find? author.id = some author)
    (hp : w.tables.pullRequests.find? id = none) (name : String) (draws : Draws)
    (limit : Int) :
    (openPullRequest id name author.id draws limit).on w =
      (.ok ⟨.opening id name author.id w.supply.readClock.1,
          Selection.reviewers (w.tables.pool author) limit draws⟩,
        ⟨w.tables.addPullRequest (.opening id name author.id w.supply.readClock.1)
          (Selection.reviewers (w.tables.pool author) limit draws),
          w.supply.readClock.2⟩) := by
  have hauthor := StoreCall.run_user ha
  have hcreate := StoreCall.run_createPullRequest hp ha name
  have hstored : (w.tables.putPullRequest (.opening id name author.id
      w.supply.readClock.1)).pullRequests.find? id =
        some (.opening id name author.id w.supply.readClock.1) := by
    rw [Tables.find?_putPullRequest]
    exact if_pos rfl
  rw [openPullRequest, on_bind_of_ok (on_putOr_of_ok hauthor _),
    on_bind_of_ok (on_putOr_of_ok hcreate _), on_bind_of_ok (on_put _ _)]
  -- the pull request is stored by now; what is left is that no assignment can fail
  refine on_bind_of_ok (on_each_assign hstored ?_ ?_ ?_) _
  · exact Selection.nodup_reviewers (hi.unambiguous.nodup_pool author) limit draws
  · intro u _
    exact hi.not_mem_of_unknown hp u
  · intro u hu
    exact (hi.unambiguous.of_mem_pool (Selection.mem_of_mem_reviewers hu)).2

/-! ## Replacing a reviewer -/

theorem on_reassign_unknown {id : Identifier} (h : w.tables.pullRequests.find? id = none)
    (old : Identifier) (draws : Draws) :
    (reassign id old draws).on w = (.error (.about .pullRequestNotFound id), w) :=
  on_bind_of_error (on_findPullRequest_of_none h true) _

theorem on_reassign_merged {p : PullRequest}
    (h : w.tables.pullRequests.find? p.id = some p) (hm : p.status = .merged)
    (old : Identifier) (draws : Draws) :
    (reassign p.id old draws).on w = (.error (.about .pullRequestMerged p.id), w) := by
  have hmerged : p.isMerged = true := by simp [PullRequest.isMerged, hm]
  rw [reassign, on_bind_of_ok (on_findPullRequest h true), on_bind_of_ok (on_put _ _)]
  refine on_bind_of_error ((on_ofExcept _ _).trans ?_) _
  simp [Selection.checkReplaceable, hmerged]

theorem on_reassign_notAssigned {p : PullRequest}
    (h : w.tables.pullRequests.find? p.id = some p) (ho : p.status = .opened)
    {old : Identifier} (hold : (p.id, old) ∉ w.tables.reviewers) (draws : Draws) :
    (reassign p.id old draws).on w = (.error (.about .reviewerNotAssigned old), w) := by
  have hopen : p.isMerged = false := by simp [PullRequest.isMerged, ho]
  rw [reassign, on_bind_of_ok (on_findPullRequest h true), on_bind_of_ok (on_put _ _)]
  simp only [Cell.ids_map_identifier]
  refine on_bind_of_error ((on_ofExcept _ _).trans ?_) _
  simp [Selection.checkReplaceable, hopen, hold]

/-- The first steps of a replacement, up to the choice, only read. -/
theorem on_reassign_checked {p : PullRequest} {author : User} {old : Identifier}
    (h : w.tables.pullRequests.find? p.id = some p) (ho : p.status = .opened)
    (hold : (p.id, old) ∈ w.tables.reviewers)
    (ha : w.tables.users.find? p.authorId = some author) (draws : Draws) :
    (reassign p.id old draws).on w =
      on (if (w.tables.substitutes p author old).isEmpty then
        .note (noCandidate p.id old) (.fail (.about .noCandidate old))
      else do
        let replacedBy ← Dialogue.ofExcept
          (Selection.replacement (w.tables.substitutes p author old) draws)
        let () ← StoreCall.putOr (.unassign p.id old)
          (Failure.replacing .notFound (.about .reviewerNotAssigned old))
        let () ← StoreCall.put (.assign p.id replacedBy)
        let updated : List Cell ← StoreCall.put (.reviewersOf p.id)
        let shown ← Dialogue.ofExcept (Cell.shown updated)
        return ⟨⟨p, shown⟩, replacedBy⟩) w := by
  have hopen : p.isMerged = false := by simp [PullRequest.isMerged, ho]
  have hcheck : Selection.checkReplaceable p (w.tables.reviewers.reviewersOf p.id) old =
      .ok () := by
    simp [Selection.checkReplaceable, hopen, hold]
  rw [reassign, on_bind_of_ok (on_findPullRequest h true), on_bind_of_ok (on_put _ _)]
  simp only [Cell.ids_map_identifier]
  refine (on_bind_of_ok ((on_ofExcept _ _).trans (congrArg (·, w) hcheck)) _).trans ?_
  rw [on_bind_of_ok ((on_put _ _).trans (StoreCall.run_user ha)), on_bind_of_ok (on_put _ _)]
  rfl

theorem on_reassign_noCandidate {p : PullRequest} {author : User} {old : Identifier}
    (h : w.tables.pullRequests.find? p.id = some p) (ho : p.status = .opened)
    (hold : (p.id, old) ∈ w.tables.reviewers)
    (ha : w.tables.users.find? p.authorId = some author)
    (hnone : w.tables.substitutes p author old = []) (draws : Draws) :
    (reassign p.id old draws).on w = (.error (.about .noCandidate old), w) := by
  rw [on_reassign_checked h ho hold ha, hnone]
  simp

theorem on_reassign_replaced (hi : w.tables.Unambiguous) {p : PullRequest} {author : User}
    {old new : Identifier} (h : w.tables.pullRequests.find? p.id = some p)
    (ho : p.status = .opened) (hold : (p.id, old) ∈ w.tables.reviewers)
    (ha : w.tables.users.find? p.authorId = some author)
    (hn : new ∈ w.tables.substitutes p author old) {draws : Draws}
    (hdraw : Selection.replacement (w.tables.substitutes p author old) draws = .ok new) :
    (reassign p.id old draws).on w =
      (.ok ⟨⟨p, (w.tables.replaceReviewer p.id old new).reviewers.reviewersOf p.id⟩, new⟩,
        ⟨w.tables.replaceReviewer p.id old new, w.supply⟩) := by
  obtain ⟨-, -, hfree, u, hu⟩ := hi.of_mem_substitutes hn
  have hsome : (w.tables.substitutes p author old).isEmpty = false := by
    simp [List.ne_nil_of_mem hn]
  have hunassign := StoreCall.run_unassign hold
  -- the second change works on what the first one left, where the new reviewer is still free
  have hstill : (p.id, new) ∉ w.tables.reviewers.erase (p.id, old) := by
    intro hm
    exact hfree (Pairs.mem_erase.mp hm).2
  have hassign : (StoreCall.assign p.id new).run
      ⟨{ w.tables with reviewers := w.tables.reviewers.erase (p.id, old) }, w.supply⟩ =
        (.ok (), ⟨w.tables.replaceReviewer p.id old new, w.supply⟩) :=
    StoreCall.run_assign hstill h hu
  rw [on_reassign_checked h ho hold ha, hsome, hdraw, if_neg Bool.false_ne_true,
    on_bind_of_ok (on_ofExcept _ _), on_bind_of_ok (on_putOr_of_ok hunassign _)]
  refine (on_bind_of_ok ((on_put _ _).trans hassign) _).trans ?_
  exact (on_bind_of_ok (on_put _ _) _).trans (on_shown_bind _ _ _)

/-! ## Creating a team -/

theorem on_createTeam_named {draft : TeamDraft} {team : Team}
    (h : w.tables.teamNamed? draft.teamName = some team) :
    (createTeam draft).on w = (.error (.named .teamExists draft.teamName), w) := by
  have hrefused := StoreCall.run_createTeam_named h
  exact on_bind_of_error (on_putOr_of_refused hrefused rfl _) _

/-- A member whose username is free in the team is put there, new or not. -/
theorem on_putMember {teamId : Identifier} {m : MemberDraft}
    (hname : w.tables.usernameTaken (m.joining teamId) = false) :
    (putMember teamId m).on w = (.ok (m.joining teamId),
      ⟨w.tables.putUser (m.joining teamId), w.supply⟩) := by
  rw [putMember, on_ask]
  cases h : w.tables.users.find? m.userId with
  | none =>
    have hcreate : (StoreCall.createUser m.username m.isActive teamId (some m.userId)).run w = _ :=
      StoreCall.run_createUser (u := m.joining teamId) h hname
    rw [StoreCall.run_user_of_none h]
    exact on_putOr_of_ok hcreate _
  | some old =>
    have hupdate := StoreCall.run_updateUser h hname
    rw [StoreCall.run_user h]
    exact on_putOr_of_ok hupdate _

/-- Members of different identifiers and usernames are put one after the other into a team in which
none of their usernames is in use: no member stands in the way of a later one. -/
theorem on_each_putMember {teamId : Identifier} {ms : List MemberDraft}
    (hids : (ms.map MemberDraft.userId).Nodup)
    (hnames : (ms.map MemberDraft.username).Nodup)
    (hfree : ∀ k u, w.tables.users.find? k = some u → u.teamId = teamId →
      u.username ∉ ms.map MemberDraft.username) :
    on (.each (putMember teamId) ms) w = (.ok (ms.map (MemberDraft.joining teamId)),
      ⟨{ w.tables with
          users := w.tables.users.putAll User.id (ms.map (MemberDraft.joining teamId)) },
        w.supply⟩) := by
  -- the usernames still to come are free in the team all along: that is the invariant
  induction ms generalizing w with
  | nil => rfl
  | cons m ms ih =>
    rw [List.map_cons, List.nodup_cons] at hids hnames
    obtain ⟨-, hids⟩ := hids
    obtain ⟨hfirst, hrest⟩ := hnames
    have hname : w.tables.usernameTaken (m.joining teamId) = false := by
      rw [Tables.usernameTaken_eq_false]
      intro k other hk _ hteam he
      exact hfree k other hk hteam (he ▸ List.mem_cons_self)
    refine on_each_cons_of_ok (on_putMember hname) (ih hids hrest ?_)
    intro k u hk hteam hm
    rw [Tables.find?_putUser] at hk
    split at hk
    · cases hk
      exact hfirst hm
    · exact hfree k u hk hteam (List.mem_cons_of_mem _ hm)

theorem on_createTeam_new (hi : w.tables.Integrity) {draft : TeamDraft}
    (hd : draft.Consistent) (hfresh : w.tables.teams.find? w.supply.freshId.1 = none)
    (hnew : w.tables.teamNamed? draft.teamName = none) :
    (createTeam draft).on w =
      (.ok ⟨⟨w.supply.freshId.1, draft.teamName⟩,
          draft.members.map (MemberDraft.joining w.supply.freshId.1)⟩,
        ⟨w.tables.addTeam ⟨w.supply.freshId.1, draft.teamName⟩
          (draft.members.map (MemberDraft.joining w.supply.freshId.1)),
          w.supply.freshId.2⟩) := by
  have hcreate := StoreCall.run_createTeam hnew
  rw [createTeam, on_bind_of_ok (on_putOr_of_ok hcreate _)]
  refine on_bind_of_ok (on_each_putMember hd.ids hd.usernames ?_) _
  -- nobody stands under the new team yet, so no username is in use there
  intro k u hk hteam
  exact absurd hteam (hi.teamId_ne hfresh hk)

/-! A team that was created was put in with its members, whatever stood under its identifier before. -/

theorem on_putMember_taken {teamId : Identifier} {m : MemberDraft}
    (hname : w.tables.usernameTaken (m.joining teamId) = true) :
    (putMember teamId m).on w = (.error (.about .usernameTaken m.userId), w) := by
  have hname' : w.tables.usernameTaken ⟨m.userId, m.username, m.isActive, teamId⟩ = true := hname
  rw [putMember, on_ask]
  cases h : w.tables.users.find? m.userId with
  | none =>
    have hrefused : (StoreCall.createUser m.username m.isActive teamId (some m.userId)).run w =
        (.error (StoreCall.usernameConflict m.username), w) := by
      simp [StoreCall.run, Ledger.contains, h, hname']
    rw [StoreCall.run_user_of_none h]
    exact on_putOr_of_refused hrefused rfl _
  | some old =>
    have hrefused : (StoreCall.updateUser ⟨m.userId, m.username, m.isActive, teamId⟩).run w =
        (.error (StoreCall.usernameConflict m.username), w) := by
      simp [StoreCall.run, h, hname']
    rw [StoreCall.run_user h]
    exact on_putOr_of_refused hrefused rfl _

theorem on_each_putMember_eq_ok {teamId : Identifier} {ms : List MemberDraft} {us : List User}
    {w' : World} (h : on (.each (putMember teamId) ms) w = (.ok us, w')) :
    us = ms.map (MemberDraft.joining teamId) ∧
      w'.tables = { w.tables with users := w.tables.users.putAll User.id us } := by
  induction ms generalizing w us with
  | nil =>
    cases h
    exact ⟨rfl, rfl⟩
  | cons m ms ih =>
    obtain ⟨u, w₁, hu, hrest⟩ := on_bind_eq_ok.mp h
    obtain ⟨us, w₂, hus, hdone⟩ := on_bind_eq_ok.mp hrest
    cases hdone
    cases hname : w.tables.usernameTaken (m.joining teamId) with
    | true => exact nomatch (on_putMember_taken hname).symm.trans hu
    | false =>
      cases (on_putMember hname).symm.trans hu
      obtain ⟨rfl, hw⟩ := ih hus
      exact ⟨rfl, hw⟩

theorem on_createTeam_eq_ok {draft : TeamDraft} {r : Roster} {w' : World}
    (h : (createTeam draft).on w = (.ok r, w')) :
    r = ⟨⟨w.supply.freshId.1, draft.teamName⟩,
        draft.members.map (MemberDraft.joining w.supply.freshId.1)⟩ ∧
      w'.tables = w.tables.addTeam r.team r.users := by
  cases hname : w.tables.teamNamed? draft.teamName with
  | some team => exact nomatch (on_createTeam_named hname).symm.trans h
  | none =>
    have hcreate := StoreCall.run_createTeam hname
    rw [createTeam, on_bind_of_ok (on_putOr_of_ok hcreate _)] at h
    obtain ⟨us, w₁, hus, hdone⟩ := on_bind_eq_ok.mp h
    cases hdone
    obtain ⟨rfl, hw⟩ := on_each_putMember_eq_ok hus
    exact ⟨rfl, hw⟩

end Program

end ReviewRota
