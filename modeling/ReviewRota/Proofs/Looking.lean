import ReviewRota.Proofs.Calls

/-!
# Calls that only look

The queries ask nothing of the store that changes it: their answers depend on the tables alone, and
the tables, the clock and the identifiers are as they were afterwards. So a query can be held
request by request with other calls in between, as long as they leave its tables alone.
-/

namespace ReviewRota

/-- A request that only looks at the tables. -/
def StoreCall.Looks (q : StoreCall) : Prop :=
  ∃ look : Tables → Except Failure q.Reply, ∀ w, q.run w = (look w.tables, w)

namespace StoreCall

theorem looks_teamNamed (name : String) : (teamNamed name).Looks := by
  refine ⟨fun t => (run (teamNamed name) ⟨t, default⟩).1, fun w => ?_⟩
  cases h : w.tables.teamNamed? name <;> simp [run, h]

theorem looks_user (id : Identifier) : (user id).Looks := by
  refine ⟨fun t => (run (user id) ⟨t, default⟩).1, fun w => ?_⟩
  cases h : w.tables.users.find? id <;> simp [run, h]

theorem looks_usersOfTeam (teamId : Identifier) : (usersOfTeam teamId).Looks :=
  ⟨fun t => .ok (t.usersOfTeam teamId), fun _ => rfl⟩

theorem looks_pullRequest (id : Identifier) (lock : Bool) : (pullRequest id lock).Looks := by
  refine ⟨fun t => (run (pullRequest id lock) ⟨t, default⟩).1, fun w => ?_⟩
  cases h : w.tables.pullRequests.find? id <;> simp [run, h]

theorem looks_pullRequests (ids : List Cell) : (pullRequests ids).Looks :=
  ⟨fun t => .ok ((Cell.ids ids).filterMap t.pullRequests.find?), fun _ => rfl⟩

theorem looks_reviewersOf (p : Identifier) : (reviewersOf p).Looks :=
  ⟨fun t => .ok ((t.reviewers.reviewersOf p).map .identifier), fun _ => rfl⟩

theorem looks_reviewedBy (u : Identifier) : (reviewedBy u).Looks :=
  ⟨fun t => .ok ((t.reviewers.reviewedBy u).map .identifier), fun _ => rfl⟩

end StoreCall

namespace Program

variable {α β : Type}

/-- All requests of a call only look, whatever the replies are. -/
def Looks : Program α → Prop
  | .done _ | .fail _ => True
  | .note _ rest => Looks rest
  | .ask q next => q.Looks ∧ ∀ r, Looks (next r)

@[simp] theorem looks_ofExcept (r : Except Failure α) : Looks (Dialogue.ofExcept r) := by
  cases r <;> trivial

theorem looks_put {q : StoreCall} (h : q.Looks) : Looks (StoreCall.put q) :=
  ⟨h, fun r => looks_ofExcept r⟩

theorem looks_putOr {q : StoreCall} (h : q.Looks) (reword : Failure → Failure) :
    Looks (StoreCall.putOr q reword) :=
  ⟨h, fun r => looks_ofExcept (r.mapError reword)⟩

theorem Looks.bind {p : Program α} {k : α → Program β} (hp : Looks p)
    (hk : ∀ a, Looks (k a)) : Looks (p >>= k) := by
  show Looks (p.bind k)
  induction p with
  | done a => exact hk a
  | fail f => trivial
  | note e rest ih => exact ih hp
  | ask q next ih => exact ⟨hp.1, fun r => ih r (hp.2 r)⟩

/-- What a call that only looks comes to is read off the tables. -/
theorem Looks.exists_look {p : Program α} (h : Looks p) :
    ∃ look : Tables → Except Failure α, ∀ w, p.on w = (look w.tables, w) := by
  induction p with
  | done a => exact ⟨fun _ => .ok a, fun _ => rfl⟩
  | fail f => exact ⟨fun _ => .error f, fun _ => rfl⟩
  | note e rest ih =>
    obtain ⟨look, hlook⟩ := ih h
    exact ⟨look, fun w => (on_note e rest w).trans (hlook w)⟩
  | ask q next ih =>
    obtain ⟨⟨reply, hreply⟩, hnext⟩ := h
    choose look hlook using fun r => ih r (hnext r)
    refine ⟨fun t => look (reply t) t, fun w => ?_⟩
    rw [on_ask, hreply, hlook]

end Program

/-- A call that only looks leaves nothing but events, whatever version it looks at. -/
theorem Course.converse_looks {α : Type} {p : Program α} (hp : p.Looks) {h : Handle}
    {v : VersionedTables} {s : Session} (hv : s.databases.lookup h.database = some (.memory v))
    (hn : h.version < v.versions.length) (hf : s.faults = []) :
    ∃ es, (converse h p).run s =
      some ((p.on ⟨v.version h.version, s.supply⟩).1, s.heard es) := by
  have hrun := converse_eq p hv hn hf
  obtain ⟨look, hlook⟩ := hp.exists_look
  obtain ⟨hr, hw⟩ := p.run_eq_on ⟨⟨v.version h.version, s.supply⟩, s.events⟩
  obtain ⟨es, hes⟩ := p.exists_events ⟨⟨v.version h.version, s.supply⟩, s.events⟩
  rw [hlook] at hw
  have haccount : (p.run ⟨⟨v.version h.version, s.supply⟩, s.events⟩).2 =
      ⟨⟨v.version h.version, s.supply⟩, s.events ++ es⟩ := congrArg₂ Account.mk hw hes
  rw [haccount, hr, Session.worked_same hv hn] at hrun
  exact ⟨es, hrun⟩

theorem Query.looks_program (q : Query) : Program.Looks q.program := by
  open StoreCall Program in
  cases q with
  | team name =>
    refine (looks_putOr (looks_teamNamed name) _).bind fun team => ?_
    exact (looks_put (looks_usersOfTeam team.id)).bind fun _ => trivial
  | user id => exact looks_putOr (looks_user id) _
  | review id =>
    refine (looks_putOr (looks_pullRequest id false) _).bind fun pr => ?_
    refine (looks_put (looks_reviewersOf pr.id)).bind fun _ => ?_
    exact (looks_ofExcept _).bind fun _ => trivial
  | assignedReviews id =>
    refine (looks_put (looks_reviewedBy id)).bind fun ids => ?_
    show Program.Looks (if ids.isEmpty then _ else _)
    split
    · trivial
    · refine (looks_put (looks_pullRequests ids)).bind fun prs => ?_
      show Program.Looks (if PullRequest.haveOrder prs then _ else _)
      split <;> trivial

end ReviewRota
