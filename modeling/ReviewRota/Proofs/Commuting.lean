import ReviewRota.Proofs.SameContents
import ReviewRota.Proofs.Tasks

/-!
# Calls about different pull requests commute

To create, to merge or to reassign a pull request reads the teams and the users, which none of these
calls changes, and otherwise the pull request itself and its reviewers. So it comes to the same as
long as these are the same, and it leaves every other pull request as it was. Two such calls about
two pull requests can therefore be made in either order.
-/

namespace ReviewRota

/-- A command that creates, merges or reassigns a pull request. -/
def Command.Concerns (p : Identifier) : Command → Prop
  | .openPullRequest id .. | .merge id | .reassign id .. => id = p
  | _ => False

/-- The same supply and agreement on a pull request, in worlds in the first of which all other pull
requests are still as they were in the tables that a call has started from. -/
structure World.AlikeAt (p : Identifier) (start : Tables) (w w' : World) : Prop where
  supply : w.supply = w'.supply
  here : w.tables.Untouched p w'.tables
  named : ∀ pr, w.tables.pullRequests.find? p = some pr → pr.id = p
  elsewhere : ∀ q, q ≠ p → start.Untouched q w.tables

namespace World.AlikeAt

variable {p : Identifier} {start : Tables} {w w' : World}

theorem contains_pullRequests (h : AlikeAt p start w w') :
    w'.tables.pullRequests.contains p = w.tables.pullRequests.contains p := by
  rw [Ledger.contains, Ledger.contains, h.here.pullRequest]

theorem putPullRequest (h : AlikeAt p start w w') {pr : PullRequest} (hid : pr.id = p)
    (supply : Supply) : AlikeAt p start ⟨w.tables.putPullRequest pr, supply⟩
      ⟨w'.tables.putPullRequest pr, supply⟩ where
  supply := rfl
  here := by
    refine ⟨h.here.teams, h.here.users, ?_, h.here.reviewers⟩
    rw [Tables.find?_putPullRequest, Tables.find?_putPullRequest, if_pos hid.symm, if_pos hid.symm]
  named := by
    intro other hother
    rw [Tables.find?_putPullRequest, if_pos hid.symm] at hother
    rw [← Option.some.inj hother, hid]
  elsewhere := by
    intro q hq
    have hout := h.elsewhere q hq
    refine ⟨hout.teams, hout.users, ?_, hout.reviewers⟩
    rw [Tables.find?_putPullRequest, if_neg (hid.symm ▸ hq), hout.pullRequest]

/-- One and the same change of the pairs, which keeps to the pull request. -/
theorem withReviewers (h : AlikeAt p start w w') {f : Pairs → Pairs}
    (hhere : ∀ ps qs : Pairs, (∀ u, (p, u) ∈ qs ↔ (p, u) ∈ ps) →
      ∀ u, (p, u) ∈ f qs ↔ (p, u) ∈ f ps)
    (helsewhere : ∀ (ps : Pairs) q u, q ≠ p → ((q, u) ∈ f ps ↔ (q, u) ∈ ps)) :
    AlikeAt p start ⟨{ w.tables with reviewers := f w.tables.reviewers }, w.supply⟩
      ⟨{ w'.tables with reviewers := f w'.tables.reviewers }, w'.supply⟩ where
  supply := h.supply
  here := ⟨h.here.teams, h.here.users, h.here.pullRequest, hhere _ _ h.here.reviewers⟩
  named := h.named
  elsewhere := by
    intro q hq
    have hout := h.elsewhere q hq
    exact ⟨hout.teams, hout.users, hout.pullRequest,
      fun u => (helsewhere _ q u hq).trans (hout.reviewers u)⟩

theorem insert (h : AlikeAt p start w w') (u : Identifier) : AlikeAt p start
    ⟨{ w.tables with reviewers := w.tables.reviewers.insert (p, u) }, w.supply⟩
    ⟨{ w'.tables with reviewers := w'.tables.reviewers.insert (p, u) }, w'.supply⟩ := by
  refine h.withReviewers (f := Pairs.insert (p, u)) (fun ps qs hsame v => ?_) fun ps q v hq => ?_
  · rw [Pairs.mem_insert, Pairs.mem_insert, hsame]
  · simp [Pairs.mem_insert, hq]

theorem erase (h : AlikeAt p start w w') (u : Identifier) : AlikeAt p start
    ⟨{ w.tables with reviewers := w.tables.reviewers.erase (p, u) }, w.supply⟩
    ⟨{ w'.tables with reviewers := w'.tables.reviewers.erase (p, u) }, w'.supply⟩ := by
  refine h.withReviewers (f := Pairs.erase (p, u)) (fun ps qs hsame v => ?_) fun ps q v hq => ?_
  · rw [Pairs.mem_erase, Pairs.mem_erase, hsame]
  · simp [Pairs.mem_erase, hq]

end World.AlikeAt

/-! ## Requests about one pull request -/

namespace StoreCall

open World (AlikeAt)

variable {p : Identifier} {start : Tables}

theorem respects_user (id : Identifier) : (user id).Respects (AlikeAt p start) := by
  intro w w' h
  have hid : w'.tables.users.find? id = w.tables.users.find? id := by rw [h.here.users]
  cases hfound : w.tables.users.find? id <;> simpa [run, hfound, hid] using h

theorem respects_usersOfTeam (teamId : Identifier) :
    (usersOfTeam teamId).Respects (AlikeAt p start) := by
  intro w w' h
  refine ⟨congrArg Except.ok ?_, h⟩
  rw [Tables.usersOfTeam, Tables.usersOfTeam, h.here.users]

theorem respects_pullRequest (lock : Bool) : (pullRequest p lock).Respects (AlikeAt p start) := by
  intro w w' h
  have hid := h.here.pullRequest
  cases hfound : w.tables.pullRequests.find? p <;> simpa [run, hfound, hid] using h

theorem respects_createPullRequest (name : String) (authorId : Identifier) :
    (createPullRequest p name authorId).Respects (AlikeAt p start) := by
  intro w w' h
  have husers : w'.tables.users.contains authorId = w.tables.users.contains authorId := by
    rw [h.here.users]
  simp only [run, h.contains_pullRequests, husers, ← h.supply]
  split
  · exact ⟨rfl, h⟩
  · split
    · exact ⟨rfl, h⟩
    · exact ⟨rfl, h.putPullRequest rfl _⟩

theorem respects_setMerged : (setMerged p).Respects (AlikeAt p start) := by
  intro w w' h
  have hid := h.here.pullRequest
  cases hfound : w.tables.pullRequests.find? p with
  | none => simpa [run, hfound, hid] using h
  | some pr =>
    obtain rfl := h.named pr hfound
    cases hs : pr.status with
    | merged => simpa [run, hfound, hid, PullRequest.isMerged, hs] using h
    | opened =>
      rw [run_setMerged hfound hs, run_setMerged (hid.trans hfound) hs, ← h.supply]
      have hkept : (pr.mergedOn w.supply.readClock.1).id = pr.id := rfl
      exact ⟨rfl, h.putPullRequest hkept _⟩

theorem respects_assign (u : Identifier) : (assign p u).Respects (AlikeAt p start) := by
  intro w w' h
  have husers : w'.tables.users.contains u = w.tables.users.contains u := by rw [h.here.users]
  simp only [run, h.here.reviewers, h.contains_pullRequests, husers]
  split
  · exact ⟨rfl, h⟩
  · split
    · exact ⟨rfl, h⟩
    · exact ⟨rfl, h.insert u⟩

theorem respects_unassign (u : Identifier) : (unassign p u).Respects (AlikeAt p start) := by
  intro w w' h
  simp only [run, h.here.reviewers]
  split
  · exact ⟨rfl, h.erase u⟩
  · exact ⟨rfl, h⟩

theorem respects_reviewersOf : (reviewersOf p).Respects (AlikeAt p start) := by
  intro w w' h
  refine ⟨congrArg Except.ok ?_, h⟩
  rw [Pairs.reviewersOf_congr fun u => (h.here.reviewers u).symm]

/-- Who asks for a pull request gets the one of that identifier. -/
theorem id_of_pullRequest {lock : Bool} {w w' : World} (h : AlikeAt p start w w') {pr : PullRequest}
    (hrun : ((pullRequest p lock).run w).1 = .ok pr) : pr.id = p := by
  cases hfound : w.tables.pullRequests.find? p with
  | none => simp [run, hfound] at hrun
  | some other =>
    rw [run_pullRequest hfound] at hrun
    cases hrun
    exact h.named pr hfound

theorem id_of_createPullRequest {name : String} {authorId : Identifier} {w : World}
    {pr : PullRequest} (hrun : ((createPullRequest p name authorId).run w).1 = .ok pr) :
    pr.id = p := by
  simp only [run] at hrun
  split at hrun
  · cases hrun
  · split at hrun
    · cases hrun
    · cases hrun
      rfl

end StoreCall

/-! ## The calls -/

namespace Program

open Operation StoreCall
open World (AlikeAt)

variable {p : Identifier} {start : Tables}

/-- The value of a request in other words is the value of the request. -/
theorem run_of_on_putOr {q : StoreCall} {reword : Failure → Failure} {w : World} {a : q.Reply}
    (h : (on (StoreCall.putOr q reword) w).1 = .ok a) : (q.run w).1 = .ok a := by
  rcases hrun : q.run w with ⟨r, w'⟩
  cases r with
  | ok b =>
    rw [on_putOr_of_ok hrun] at h
    exact h
  | error f =>
    rw [on_putOr_of_error hrun] at h
    cases h

theorem respects_openPullRequest (name : String) (authorId : Identifier) (draws : Draws)
    (limit : Int) : (openPullRequest p name authorId draws limit).Respects (AlikeAt p start) := by
  refine (respects_putOr (respects_user authorId) _).bind fun author _ _ _ _ => ?_
  refine (respects_putOr (respects_createPullRequest name authorId) _).bind fun pr w _ _ hpr => ?_
  have hid : pr.id = p := id_of_createPullRequest (run_of_on_putOr hpr)
  rw [hid]
  refine (respects_put (respects_usersOfTeam author.teamId)).bind fun teammates _ _ _ _ => ?_
  have heach : ∀ us, Respects (AlikeAt p start) (.each (fun u => StoreCall.put (.assign p u)) us) :=
    fun us => respects_each fun u _ => respects_put (respects_assign u)
  exact (heach _).bind fun _ _ _ _ _ => respects_done _

theorem respects_merge : (merge p).Respects (AlikeAt p start) := by
  refine (respects_putOr (respects_pullRequest true) _).bind fun pr _ _ _ _ => ?_
  split
  · exact respects_done pr
  · exact respects_putOr respects_setMerged _

theorem respects_reassign (old : Identifier) (draws : Draws) :
    (reassign p old draws).Respects (AlikeAt p start) := by
  refine (respects_putOr (respects_pullRequest true) _).bind fun pr w w' h hpr => ?_
  have hid : pr.id = p := id_of_pullRequest h (run_of_on_putOr hpr)
  rw [hid]
  refine (respects_put respects_reviewersOf).bind fun current _ _ _ _ => ?_
  refine (respects_ofExcept _).bind fun _ _ _ _ _ => ?_
  refine (respects_put (respects_user pr.authorId)).bind fun author _ _ _ _ => ?_
  refine (respects_put (respects_usersOfTeam author.teamId)).bind fun teammates _ _ _ _ => ?_
  dsimp only
  split
  · exact (respects_fail _).note _
  · refine (respects_ofExcept _).bind fun replacedBy _ _ _ _ => ?_
    refine (respects_putOr (respects_unassign old) _).bind fun _ _ _ _ _ => ?_
    refine (respects_put (respects_assign replacedBy)).bind fun _ _ _ _ _ => ?_
    refine (respects_put respects_reviewersOf).bind fun updated _ _ _ _ => ?_
    exact (respects_ofExcept _).bind fun _ _ _ _ _ => respects_done _

/-- A call about a pull request sees nothing but this one and changes no other. -/
theorem respects_of_concerns {c : Command} (h : c.Concerns p) :
    c.program.Respects (AlikeAt p start) := by
  cases c with
  | openPullRequest id name authorId draws limit =>
    obtain rfl : id = p := h
    exact respects_openPullRequest name authorId draws limit
  | merge id =>
    obtain rfl : id = p := h
    exact respects_merge
  | reassign id old draws =>
    obtain rfl : id = p := h
    exact respects_reassign old draws
  | createTeam => exact h.elim
  | setActive => exact h.elim

end Program

namespace Call

variable {name : String} {k l : Call} {p q : Identifier} {t t' : Tables} {ks : List Call}

/-- What a call about a pull request answers and leaves, on two tables that agree on it. -/
theorem alike (hk : k.command.Concerns p) (named : ∀ pr, t.pullRequests.find? p = some pr → pr.id = p)
    (h : t.Untouched p t') :
    (Task.command k).answer t = (Task.command k).answer t' ∧
      ((Task.command k).leaves t).Untouched p ((Task.command k).leaves t') ∧
      ∀ o, o ≠ p → t.Untouched o ((Task.command k).leaves t) := by
  have halike : World.AlikeAt p t ⟨t, k.supply⟩ ⟨t', k.supply⟩ :=
    ⟨rfl, h, named, fun o _ => .refl o t⟩
  obtain ⟨houtcome, hafter⟩ := Program.respects_of_concerns hk _ _ halike
  have hsame : (Task.command k).outcome t = (Task.command k).outcome t' := houtcome
  refine ⟨congrArg k.command.conclude hsame, ?_⟩
  rw [Task.leaves, Task.leaves, hsame]
  split
  · exact ⟨hafter.here, hafter.elsewhere⟩
  · exact ⟨h, fun o _ => .refl o t⟩

theorem unambiguous_leaves (ht : t.Unambiguous) : ((Task.command k).leaves t).Unambiguous := by
  have hself : World.Alike ⟨t, k.supply⟩ ⟨t, k.supply⟩ := ⟨.refl t, ht, rfl⟩
  have hafter := (Program.respects_of_all StoreCall.respects_alike k.command.program _ _ hself).2
  unfold Task.leaves
  split
  · exact hafter.unambiguous
  · exact ht

/-- Other pull requests stay as they are. -/
theorem untouched_of_ne (hk : k.command.Concerns p) (ht : t.Unambiguous) {o : Identifier}
    (ho : o ≠ p) : t.Untouched o ((Task.command k).leaves t) :=
  (alike hk (ht.pullRequestKeys p) (.refl p t)).2.2 o ho

/-- On tables: each call answers as if the other one had not been there, and whatever order they go
in, every pull request is left as the call about it leaves it. -/
theorem diamond (ht : t.Unambiguous) (hk : k.command.Concerns p) (hl : l.command.Concerns q)
    (hne : p ≠ q) :
    (Task.command l).answer ((Task.command k).leaves t) = (Task.command l).answer t ∧
      (Task.command k).answer ((Task.command l).leaves t) = (Task.command k).answer t ∧
      ((Task.command l).leaves ((Task.command k).leaves t)).SameContents
        ((Task.command k).leaves ((Task.command l).leaves t)) := by
  have hp := untouched_of_ne hl ht hne
  have hq := untouched_of_ne hk ht hne.symm
  obtain ⟨hanswer, hleaves, -⟩ := alike hk (ht.pullRequestKeys p) hp
  obtain ⟨hanswer', hleaves', -⟩ := alike hl (ht.pullRequestKeys q) hq
  refine ⟨hanswer'.symm, hanswer.symm, Tables.Untouched.sameContents fun o => ?_⟩
  -- the one call about the pull request comes to the same in both orders, the other one keeps out
  by_cases hop : o = p
  · subst hop
    exact (untouched_of_ne hl (unambiguous_leaves ht) hne).symm.trans hleaves
  · by_cases hoq : o = q
    · subst hoq
      exact hleaves'.symm.trans (untouched_of_ne hk (unambiguous_leaves ht) hop)
    · have h₁ := untouched_of_ne hk ht hop
      have h₂ := untouched_of_ne hl (unambiguous_leaves (k := k) ht) hoq
      have h₃ := untouched_of_ne hl ht hoq
      have h₄ := untouched_of_ne hk (unambiguous_leaves (k := l) ht) hop
      exact (h₁.trans h₂).symm.trans (h₃.trans h₄)

/-- **Calls about different pull requests commute.** In either order both give the same answers and
leave the same contents. -/
theorem commute (past : History name .empty ks t) (hk : k.command.Concerns p)
    (hl : l.command.Concerns q) (hne : p ≠ q) {s : Session} (hs : s.Rests name t) :
    ∃ (a : Except Failure k.command.Result) (b : Except Failure l.command.Result)
      (s₁ s₂ : Session) (t₁ t₂ : Tables),
      (do let a ← k.make name; let b ← l.make name; return (a, b) : Course _).run s =
        some ((a, b), s₁) ∧ s₁.Rests name t₁ ∧
      (do let b ← l.make name; let a ← k.make name; return (a, b) : Course _).run s =
        some ((a, b), s₂) ∧ s₂.Rests name t₂ ∧ t₁.SameContents t₂ := by
  have ht : t.Unambiguous := (past.integrity Tables.integrity_empty).unambiguous
  have hrun : ∀ (m : Call) {s u}, Session.Rests name u s → ∃ s', (m.make name).run s =
      some ((Task.command m).answer u, s') ∧ s'.Rests name ((Task.command m).leaves u) :=
    fun m _ _ hs => (Task.command m).make_rests hs
  obtain ⟨s₁, hfirst, hs₁⟩ := hrun k hs
  obtain ⟨s₂, hsecond, hs₂⟩ := hrun l hs₁
  obtain ⟨s₃, hfirst', hs₃⟩ := hrun l hs
  obtain ⟨s₄, hsecond', hs₄⟩ := hrun k hs₃
  obtain ⟨hl', hk', hsame⟩ := diamond ht hk hl hne
  rw [hl'] at hsecond
  rw [hk'] at hsecond'
  refine ⟨(Task.command k).answer t, (Task.command l).answer t, s₂, s₄, _, _, ?_, hs₂, ?_, hs₄, hsame⟩
  · simp only [StateT.run_bind, hfirst, hsecond, Option.bind_eq_bind, Option.bind_some]
    rfl
  · simp only [StateT.run_bind, hfirst', hsecond', Option.bind_eq_bind, Option.bind_some]
    rfl

/-- Another one of the team of three opens a pull request. -/
def openingDocs : Call := ⟨.openPullRequest (.ofNat 8) "docs" (.ofNat 2) [] usualReviewers, default⟩

/-- Two of the team open a pull request each. -/
theorem commute_openings :
    (opening.command.Concerns (.ofNat 7) ∧ openingDocs.command.Concerns (.ofNat 8) ∧
      Identifier.ofNat 7 ≠ .ofNat 8) ∧
    ∃ (a b : Except Failure Review) (s₁ s₂ : Session) (t₁ t₂ : Tables),
      (do let a ← opening.make "rota"; let b ← openingDocs.make "rota"; return (a, b) : Course _).run
        (.holding "rota" (founding.after .empty) default) = some ((a, b), s₁) ∧
      s₁.Rests "rota" t₁ ∧
      (do let b ← openingDocs.make "rota"; let a ← opening.make "rota"; return (a, b) : Course _).run
        (.holding "rota" (founding.after .empty) default) = some ((a, b), s₂) ∧
      s₂.Rests "rota" t₂ ∧ t₁.SameContents t₂ :=
  ⟨⟨rfl, rfl, by decide⟩, commute (k := opening) (l := openingDocs) (History.history_founding "rota")
    rfl rfl (by decide) (Session.rests_holding "rota" (founding.after .empty) default)⟩

end Call

end ReviewRota
