import ReviewRota.Proofs.HistoryIndependence
import ReviewRota.Proofs.Looking
import ReviewRota.Proofs.Requests

/-!
# Calls that a database answers as tables do

A call is portable on tables if all that it asks of the store, with the replies of the tables, is
asked in circumstances in which a database agrees with them. There are two exceptions: a clash, after
which the call ends in its own words, and a list of pull requests, whose order makes no difference to
how the call goes on. All calls of the service are portable on tables of integrity,
and what a portable call comes to with a database that holds the tables is what it comes to on the
tables, whatever the database is free to choose.
-/

namespace ReviewRota

open Sql

/-! ## What replies tell -/

namespace StoreCall

variable {w w' : World}

theorem of_run_user {id : Identifier} {u : User} (h : (user id).run w = (.ok u, w')) :
    w = w' ∧ w.tables.users.find? id = some u := by
  cases hu : w.tables.users.find? id with
  | none => cases (run_user_of_none hu).symm.trans h
  | some v =>
    cases (run_user hu).symm.trans h
    exact ⟨rfl, rfl⟩

theorem of_run_pullRequest {id : Identifier} {lock : Bool} {p : PullRequest}
    (h : (pullRequest id lock).run w = (.ok p, w')) :
    w = w' ∧ w.tables.pullRequests.find? id = some p := by
  cases hp : w.tables.pullRequests.find? id with
  | none => cases (run_pullRequest_of_none hp lock).symm.trans h
  | some q =>
    cases (run_pullRequest hp lock).symm.trans h
    exact ⟨rfl, rfl⟩

theorem of_run_unassign {p u : Identifier} {a : Unit} (h : (unassign p u).run w = (.ok a, w')) :
    w' = ⟨{ w.tables with reviewers := w.tables.reviewers.erase (p, u) }, w.supply⟩ := by
  by_cases hm : (p, u) ∈ w.tables.reviewers
  · cases (run_unassign hm).symm.trans h
    rfl
  · simp [run, hm] at h

end StoreCall

namespace Program

variable {α β : Type} {w : World}

/-- With the replies of tables, a call asks only what a database answers in the same way, or clashes
and ends, or goes on in the same way with pull requests in any order. -/
def Portable : Program α → World → Prop
  | .done _, _ | .fail _, _ => True
  | .note _ rest, w => Portable rest w
  | .ask q next, w => (q.Agrees w ∧ Portable (next (q.run w).1) (q.run w).2) ∨
      (q.Clashes w ∧ ∃ g, ∀ f, f.isA .conflict = true → next (.error f) = .fail g) ∨
      (q.Lists ∧ (∀ r, q.MayReply w r → next r = next (q.run w).1) ∧
        Portable (next (q.run w).1) (q.run w).2)

theorem Portable.bind {p : Program α} {k : α → Program β} (hp : p.Portable w)
    (hk : ∀ a, (p.on w).1 = .ok a → (k a).Portable (p.on w).2) : (p >>= k).Portable w := by
  show Portable (p.bind k) w
  induction p generalizing w with
  | done a => exact hk a rfl
  | fail f => trivial
  | note e rest ih =>
    rw [on_note] at hk
    exact ih hp hk
  | ask q next ih =>
    rcases hp with ⟨hagrees, hnext⟩ | ⟨hclash, g, hg⟩ | ⟨hlists, hsame, hnext⟩
    · exact Or.inl ⟨hagrees, ih _ hnext hk⟩
    · exact Or.inr (Or.inl ⟨hclash, g, fun f hf => congrArg (Dialogue.bind · k) (hg f hf)⟩)
    · exact Or.inr (Or.inr ⟨hlists, fun r hr => congrArg (Dialogue.bind · k) (hsame r hr), ih _ hnext hk⟩)

@[simp] theorem portable_ofExcept (r : Except Failure α) : Portable (Dialogue.ofExcept r) w := by
  cases r <;> trivial

variable {q : StoreCall} {k : q.Reply → Program β} {reword : Failure → Failure}

theorem portable_put (h : q.Agrees w) : Portable (StoreCall.put q) w :=
  Or.inl ⟨h, portable_ofExcept _⟩

theorem portable_putOr (h : q.Agrees w) : Portable (StoreCall.putOr q reword) w :=
  Or.inl ⟨h, portable_ofExcept _⟩

/-- A request, and how the call goes on when it is granted. -/
theorem portable_put_bind (h : q.Agrees w)
    (hk : ∀ a w', q.run w = (.ok a, w') → (k a).Portable w') :
    (StoreCall.put q >>= k).Portable w := by
  refine (portable_put h).bind fun a ha => ?_
  rw [on_put] at ha ⊢
  exact hk a _ (Prod.ext ha rfl)

theorem portable_putOr_bind (h : q.Agrees w)
    (hk : ∀ a w', q.run w = (.ok a, w') → (k a).Portable w') :
    (StoreCall.putOr q reword >>= k).Portable w := by
  refine (portable_putOr h).bind fun a ha => ?_
  rcases hrun : q.run w with ⟨r, w'⟩
  cases r with
  | error f =>
    rw [on_putOr_of_error hrun] at ha
    cases ha
  | ok b =>
    rw [on_putOr_of_ok hrun] at ha ⊢
    obtain rfl := Except.ok.inj ha
    exact hk _ _ hrun

/-- A clash that is put in other words is the end of a call. -/
theorem portable_putOr_bind_of_clash (h : q.Clashes w) (other : Failure) :
    (StoreCall.putOr q (Failure.replacing .conflict other) >>= k).Portable w := by
  refine Or.inr (Or.inl ⟨h, other, fun f hf => ?_⟩)
  show (Dialogue.ofExcept (.error (Failure.replacing .conflict other f))).bind k = _
  rw [Failure.replacing_of_isA hf]
  rfl

/-- Portable calls one after the other, each on what the ones before it left. -/
theorem portable_each_cons {f : β → Program α} {x : β} {xs : List β} (hx : (f x).Portable w)
    (hxs : ∀ a, ((f x).on w).1 = .ok a → Portable (.each f xs) ((f x).on w).2) :
    Portable (.each f (x :: xs)) w :=
  hx.bind fun a ha => (hxs a ha).bind fun _ _ => trivial

/-! ## With a database -/

/-- **A portable call comes to the same with a database as on the tables that it holds.** -/
theorem Portable.ensures {p : Program α} (h : p.Portable w) {Q : Outcome α} {ws : List Write}
    (hQ : ∀ supply more, Q (p.on w).1 ⟨(p.on w).2.tables, supply⟩ (ws ++ more)) :
    Exchange.Ensures Q (p.refine perform) w ws := by
  induction p generalizing w ws with
  | done a =>
    have hdone := hQ w.supply []
    rwa [List.append_nil] at hdone
  | fail f =>
    have hfail := hQ w.supply []
    rwa [List.append_nil] at hfail
  | note e rest ih =>
    rw [on_note] at hQ
    exact ih h hQ
  | ask q next ih =>
    rw [on_ask] at hQ
    rcases h with ⟨hagrees, hnext⟩ | ⟨hclash, g, hg⟩ | ⟨hlists, hsame, hnext⟩
    · refine Exchange.ensures_perform hagrees fun more => ih _ hnext fun supply more' => ?_
      rw [List.append_assoc]
      exact hQ supply (more ++ more')
    · obtain ⟨f, hf, hrun⟩ := hclash.run
      refine Exchange.ensures_perform_of_clash hclash fun supply => ?_
      rw [hrun] at hQ
      rw [hg f hf] at hQ
      have hfail := hQ supply []
      rw [List.append_nil] at hfail
      rw [hg _ rfl]
      exact hfail
    · refine Exchange.ensures_perform_of_lists hlists fun r hr => ?_
      rw [hsame r hr]
      rw [hlists.run_eq] at hnext hQ
      exact ih _ hnext hQ

/-! ## The calls of the service -/

open Operation

/-- Members are put one after the other into a team that is there. -/
theorem portable_each_putMember {teamId : Identifier} {team : Team} {ms : List MemberDraft}
    (hteam : w.tables.teams.find? teamId = some team) (hkeys : w.tables.users.Keyed User.id)
    (hids : (ms.map MemberDraft.userId).Nodup)
    (hnames : (ms.map MemberDraft.username).Nodup)
    (hfree : ∀ k u, w.tables.users.find? k = some u → u.teamId = teamId →
      u.username ∉ ms.map MemberDraft.username) :
    Portable (.each (putMember teamId) ms) w := by
  induction ms generalizing w with
  | nil => trivial
  | cons m ms ih =>
    rw [List.map_cons, List.nodup_cons] at hids hnames
    obtain ⟨-, hids⟩ := hids
    obtain ⟨hfirst, hrest⟩ := hnames
    -- names differ within the draft and from all that the team had before
    have hname : w.tables.usernameTaken (m.joining teamId) = false := by
      rw [Tables.usernameTaken_eq_false]
      intro k other hk _ hteam he
      exact hfree k other hk hteam (he ▸ List.mem_cons_self)
    refine portable_each_cons ?_ fun a _ => ?_
    · refine Or.inl ⟨trivial, ?_⟩
      cases hu : w.tables.users.find? m.userId with
      | none =>
        rw [StoreCall.run_user_of_none hu]
        refine portable_putOr ?_
        exact ⟨m.userId, team, rfl, hu, hname, hteam⟩
      | some old =>
        rw [StoreCall.run_user hu]
        refine portable_putOr ?_
        exact ⟨old, team, hu, hkeys _ _ hu, hname, hteam⟩
    · rw [on_putMember hname]
      refine ih hteam (hkeys.put (m.joining teamId)) hids hrest ?_
      intro k u hk hteam hm
      rw [Tables.find?_putUser] at hk
      split at hk
      · cases hk
        exact hfirst hm
      · exact hfree k u hk hteam (List.mem_cons_of_mem _ hm)

theorem portable_createTeam (hi : w.tables.Integrity) {draft : TeamDraft}
    (hp : (Command.createTeam draft).Proper w) : (createTeam draft).Portable w := by
  cases h : w.tables.teamNamed? draft.teamName with
  | some team =>
    refine portable_putOr_bind_of_clash ?_ _
    exact ⟨team, h⟩
  | none =>
    obtain ⟨hd, hid⟩ := hp
    have hfresh := hid h
    refine portable_putOr_bind ?_ fun team w' hrun => ?_
    · exact ⟨hfresh, h⟩
    · cases (StoreCall.run_createTeam h).symm.trans hrun
      have hteam : (w.tables.teams.put w.supply.freshId.1
          (Team.mk w.supply.freshId.1 draft.teamName)).find? w.supply.freshId.1 = some _ :=
        (Ledger.find?_put ..).trans (if_pos rfl)
      refine Portable.bind ?_ fun _ _ => trivial
      refine portable_each_putMember hteam hi.userKeys hd.ids hd.usernames ?_
      intro k u hk hteam
      exact absurd hteam (hi.teamId_ne hfresh hk)

theorem portable_setActive (hi : w.tables.Integrity) (id : Identifier) (isActive : Bool) :
    (setActive id isActive).Portable w := by
  refine portable_putOr_bind ?_ fun u w' _ => ?_
  · exact fun u hu => hi.userKeys id u hu
  · exact portable_put_bind trivial fun _ _ _ => trivial

/-- Reviewers who are free, stored and all different are assigned one after the other. -/
theorem portable_each_assign {p : Identifier} {pr : PullRequest} {us : List Identifier}
    (hp : w.tables.pullRequests.find? p = some pr) (hn : us.Nodup)
    (hfree : ∀ u ∈ us, (p, u) ∉ w.tables.reviewers)
    (hus : ∀ u ∈ us, ∃ user, w.tables.users.find? u = some user) :
    Portable (.each (fun u => StoreCall.put (.assign p u)) us) w := by
  induction us generalizing w with
  | nil => trivial
  | cons u us ih =>
    rw [List.nodup_cons] at hn
    obtain ⟨hfirst, hrest⟩ := hn
    obtain ⟨user, huser⟩ := hus u List.mem_cons_self
    have hassign := hfree u List.mem_cons_self
    refine portable_each_cons (portable_put ?_) fun _ _ => ?_
    · exact ⟨hassign, ⟨pr, hp⟩, user, huser⟩
    · rw [on_put, StoreCall.run_assign hassign hp huser]
      refine ih hp hrest ?_ fun v hv => hus v (List.mem_cons_of_mem u hv)
      intro v hv hm
      rcases Pairs.mem_insert.mp hm with he | hm
      · have hvu : v = u := congrArg Prod.snd he
        exact hfirst (hvu ▸ hv)
      · exact hfree v (List.mem_cons_of_mem u hv) hm

theorem portable_openPullRequest (hi : w.tables.Integrity) (id : Identifier) (name : String)
    (authorId : Identifier) (draws : Draws) (limit : Int) :
    (openPullRequest id name authorId draws limit).Portable w := by
  refine portable_putOr_bind trivial fun (author : User) w' hrun => ?_
  obtain ⟨rfl, ha⟩ := StoreCall.of_run_user hrun
  obtain rfl : author.id = authorId := hi.userKeys _ _ ha
  cases hp : w.tables.pullRequests.find? id with
  | some p =>
    refine portable_putOr_bind_of_clash ?_ _
    exact ⟨p, hp⟩
  | none =>
    refine portable_putOr_bind ?_ fun pr w' hrun => ?_
    · exact ⟨hp, author, ha⟩
    · cases (StoreCall.run_createPullRequest hp ha name).symm.trans hrun
      refine portable_put_bind trivial fun us w' hrun => ?_
      cases hrun
      have hstored : (w.tables.putPullRequest (.opening id name author.id
          w.supply.readClock.1)).pullRequests.find? id = some _ :=
        (Tables.find?_putPullRequest ..).trans (if_pos rfl)
      refine Portable.bind ?_ fun _ _ => trivial
      refine portable_each_assign hstored
        (Selection.nodup_reviewers (hi.unambiguous.nodup_pool author) limit draws) ?_ ?_
      · exact fun u _ => hi.not_mem_of_unknown hp u
      · exact fun u hu => (hi.unambiguous.of_mem_pool (Selection.mem_of_mem_reviewers hu)).2

/-- A call goes on only with a pull request that is there. -/
theorem portable_findPullRequest {id : Identifier} {lock : Bool} {k : PullRequest → Program β}
    (hi : w.tables.Integrity)
    (hk : ∀ p, w.tables.pullRequests.find? p.id = some p → p.id = id → (k p).Portable w) :
    (Operation.findPullRequest id lock >>= k).Portable w := by
  refine portable_putOr_bind trivial fun (p : PullRequest) w' hrun => ?_
  obtain ⟨rfl, hp⟩ := StoreCall.of_run_pullRequest hrun
  obtain rfl := hi.pullRequestKeys _ _ hp
  exact hk p hp rfl

theorem portable_merge (hi : w.tables.Integrity) (id : Identifier) : (merge id).Portable w := by
  refine portable_findPullRequest hi fun p hp hid => ?_
  split
  · trivial
  · rename_i hopen
    refine portable_putOr ?_
    exact ⟨p, hid ▸ hp, hid, PullRequest.opened_of_isMerged hopen⟩

theorem portable_reassign (hi : w.tables.Integrity) (id old : Identifier) (draws : Draws) :
    (reassign id old draws).Portable w := by
  refine portable_findPullRequest hi fun p hp _ => ?_
  refine portable_put_bind trivial fun current w' hrun => ?_
  cases hrun
  refine (portable_ofExcept _).bind fun _ _ => ?_
  simp only [on_ofExcept]
  refine portable_put_bind trivial fun author w' hrun => ?_
  obtain ⟨rfl, ha⟩ := StoreCall.of_run_user hrun
  refine portable_put_bind trivial fun us w' hrun => ?_
  cases hrun
  show Portable (if _ then _ else _) _
  split
  · trivial
  · refine (portable_ofExcept _).bind fun new hnew => ?_
    simp only [on_ofExcept, Cell.ids_map_identifier] at hnew ⊢
    have hsubstitute : new ∈ w.tables.substitutes p author old := Selection.mem_of_replacement hnew
    obtain ⟨-, -, hfree, user, hu⟩ := hi.unambiguous.of_mem_substitutes hsubstitute
    refine portable_putOr_bind trivial fun _ w' hrun => ?_
    obtain rfl := StoreCall.of_run_unassign hrun
    refine portable_put_bind ?_ fun _ w' _ => ?_
    · exact ⟨fun hm => hfree (Pairs.mem_erase.mp hm).2, ⟨p, hp⟩, user, hu⟩
    · exact portable_put_bind trivial fun _ _ _ => (portable_ofExcept _).bind fun _ _ => trivial

/-! ## Commands and queries -/

theorem portable_command (hi : w.tables.Integrity) {c : Command}
    (hp : ∀ draft, c = .createTeam draft → c.Proper w) : c.program.Portable w := by
  cases c with
  | createTeam draft => exact portable_createTeam hi (hp draft rfl)
  | setActive id isActive => exact portable_setActive hi id isActive
  | openPullRequest id name authorId draws limit =>
    exact portable_openPullRequest hi id name authorId draws limit
  | merge id => exact portable_merge hi id
  | reassign id old draws => exact portable_reassign hi id old draws

/-- The pull requests that a user reviews are put in order by the call itself. -/
theorem portable_assignedReviews (hi : w.tables.Integrity) (userId : Identifier) :
    (assignedReviews userId).Portable w := by
  refine portable_put_bind trivial fun cells w' hrun => ?_
  cases hrun
  split
  · trivial
  · refine Or.inr (Or.inr ⟨⟨_, rfl, Pairs.nodup_reviewedBy userId w.tables.reviewers⟩, ?_, ?_⟩)
    · rintro _ ⟨ps, rfl, hperm⟩
      have hsame := summaries_perm hperm.symm fun p hp q hq => hi.unambiguous.pullRequest_unique hp hq
      calc _ = Dialogue.ofExcept (summaries ps) := (ofExcept_summaries ps).symm
        _ = Dialogue.ofExcept (summaries _) := congrArg Dialogue.ofExcept hsame.symm
        _ = _ := ofExcept_summaries _
    · show Portable (if _ then _ else _) _
      split <;> trivial

theorem portable_query (hi : w.tables.Integrity) (q : Query) : q.program.Portable w := by
  cases q with
  | team name =>
    exact portable_putOr_bind trivial fun _ _ _ => portable_put_bind trivial fun _ _ _ => trivial
  | user id => exact portable_putOr trivial
  | review id =>
    refine portable_putOr_bind trivial fun _ _ _ => portable_put_bind trivial fun _ _ _ => ?_
    exact (portable_ofExcept _).bind fun _ _ => trivial
  | assignedReviews id => exact portable_assignedReviews hi id

end Program

end ReviewRota
