import ReviewRota.Proofs.Unambiguous

/-!
# Requests that add

A request that creates something is refused and leaves the tables as they were, or it adds one entry
and keeps all that were there before. A slot that is taken is a conflict. Teams are the exception:
their name is looked at and their identifier is not, so that a team which is handed the identifier of
a stored one takes its place.
-/

namespace ReviewRota

/-- After a value was put under a key it is found there, and elsewhere what was found before. -/
theorem Ledger.find?_put_eq_some {α : Type} {l : Ledger α} {k key : Identifier} {v w : α} :
    (l.put k v).find? key = some w ↔ key = k ∧ w = v ∨ l.find? key = some w ∧ key ≠ k := by
  rw [find?_put]
  by_cases h : key = k
  · simp [h, eq_comm]
  · simp [h]

namespace Tables

/-- What stands in the tables: something under an identifier, or a pair. -/
inductive Entry where
  | team (id : Identifier) (team : Team)
  | user (id : Identifier) (user : User)
  | pullRequest (id : Identifier) (pullRequest : PullRequest)
  | pair (pullRequest user : Identifier)

/-- Where an entry stands. -/
inductive Slot where
  | team (id : Identifier)
  | user (id : Identifier)
  | pullRequest (id : Identifier)
  | pair (pullRequest user : Identifier)

def Entry.slot : Entry → Slot
  | team id _ => .team id
  | user id _ => .user id
  | pullRequest id _ => .pullRequest id
  | pair p u => .pair p u

def Holds (t : Tables) : Entry → Prop
  | .team id team => t.teams.find? id = some team
  | .user id user => t.users.find? id = some user
  | .pullRequest id p => t.pullRequests.find? id = some p
  | .pair p u => (p, u) ∈ t.reviewers

/-- There is one entry in a slot. -/
theorem Holds.unique {t : Tables} {e e' : Entry} (h : t.Holds e) (h' : t.Holds e')
    (same : e.slot = e'.slot) : e = e' := by
  cases e <;> cases e' <;> cases same
  case pair => rfl
  all_goals exact congrArg _ (Ledger.eq_of_find? h h' rfl)

/-- Something stands in a slot. -/
def Occupied (t : Tables) (s : Slot) : Prop := ∃ e, t.Holds e ∧ e.slot = s

/-- The tables with an entry put in, in the place of whatever stood there. -/
def put (t : Tables) : Entry → Tables
  | .team id team => { t with teams := t.teams.put id team }
  | .user id user => { t with users := t.users.put id user }
  | .pullRequest id p => { t with pullRequests := t.pullRequests.put id p }
  | .pair p u => { t with reviewers := t.reviewers.insert (p, u) }

/-- There is one entry more, and all that were there are there as they were. -/
structure Adds (t : Tables) (e : Entry) (t' : Tables) : Prop where
  free : ¬ t.Occupied e.slot
  holds : ∀ e', t'.Holds e' ↔ e' = e ∨ t.Holds e'

variable {t : Tables} {e e' : Entry}

/-- A slot is taken if an identifier is known or a pair is there. -/
theorem occupied_iff {s : Slot} : t.Occupied s ↔ match s with
    | .team id => t.teams.contains id = true
    | .user id => t.users.contains id = true
    | .pullRequest id => t.pullRequests.contains id = true
    | .pair p u => (p, u) ∈ t.reviewers := by
  constructor
  · rintro ⟨e, held, rfl⟩
    cases e with
    | pair p u => exact held
    | team | user | pullRequest => exact Ledger.contains_eq_true.mpr ⟨_, held⟩
  · intro h
    cases s with
    | pair p u => exact ⟨.pair p u, h, rfl⟩
    | team id =>
      obtain ⟨team, held⟩ := Ledger.contains_eq_true.mp h
      exact ⟨.team id team, held, rfl⟩
    | user id =>
      obtain ⟨user, held⟩ := Ledger.contains_eq_true.mp h
      exact ⟨.user id user, held, rfl⟩
    | pullRequest id =>
      obtain ⟨p, held⟩ := Ledger.contains_eq_true.mp h
      exact ⟨.pullRequest id p, held, rfl⟩

/-- Putting an entry in moves nothing but what stood in its slot. -/
theorem holds_put : (t.put e).Holds e' ↔ e' = e ∨ t.Holds e' ∧ e'.slot ≠ e.slot := by
  cases e with
  | team =>
    cases e' with
    | team =>
      simp only [Holds, put, Ledger.find?_put_eq_some, Entry.slot, Entry.team.injEq, ne_eq,
        Slot.team.injEq]
    | user | pullRequest | pair => simp [Holds, Entry.slot, put]
  | user =>
    cases e' with
    | user =>
      simp only [Holds, put, Ledger.find?_put_eq_some, Entry.slot, Entry.user.injEq, ne_eq,
        Slot.user.injEq]
    | team | pullRequest | pair => simp [Holds, Entry.slot, put]
  | pullRequest =>
    cases e' with
    | pullRequest =>
      simp only [Holds, put, Ledger.find?_put_eq_some, Entry.slot, Entry.pullRequest.injEq, ne_eq,
        Slot.pullRequest.injEq]
    | team | user | pair => simp [Holds, Entry.slot, put]
  | pair p u =>
    cases e' with
    | pair q v => by_cases h : q = p ∧ v = u <;> simp [Holds, Entry.slot, put, Pairs.mem_insert, h]
    | team | user | pullRequest => simp [Holds, Entry.slot, put]

theorem adds_put (free : ¬ t.Occupied e.slot) : t.Adds e (t.put e) := by
  refine ⟨free, fun e' => holds_put.trans (or_congr_right ?_)⟩
  exact and_iff_left_of_imp fun held same => free ⟨e', held, same⟩

end Tables

namespace StoreCall

/-- The entry that a request is there to create. -/
def creation? : StoreCall → World → Option Tables.Entry
  | createTeam name, w => some (.team w.supply.freshId.1 ⟨w.supply.freshId.1, name⟩)
  | createUser username isActive teamId id?, w =>
    let id := (identify id? w.supply).1
    some (.user id ⟨id, username, isActive, teamId⟩)
  | createPullRequest id name authorId, w =>
    some (.pullRequest id (.opening id name authorId w.supply.readClock.1))
  | assign p u, _ => some (.pair p u)
  | _, _ => none

/-- The request is refused, with a refusal of one of these kinds, and leaves the tables alone. -/
def Refused (q : StoreCall) (w : World) (kinds : List RefusalKind) : Prop :=
  ∃ f, (q.run w).1 = .error f ∧ (∃ kind ∈ kinds, f.isA kind = true) ∧
    (q.run w).2.tables = w.tables

/-- The request goes well and puts the entry in. -/
def Put (q : StoreCall) (w : World) (e : Tables.Entry) : Prop :=
  (∃ r, (q.run w).1 = .ok r) ∧ (q.run w).2.tables = w.tables.put e

variable {q : StoreCall} {w : World} {e : Tables.Entry}

theorem Refused.mono {kinds more : List RefusalKind} (h : q.Refused w kinds)
    (hkinds : kinds ⊆ more) : q.Refused w more := by
  obtain ⟨f, answer, ⟨kind, hk, hf⟩, kept⟩ := h
  exact ⟨f, answer, ⟨kind, hkinds hk, hf⟩, kept⟩

theorem Refused.not_put {kinds : List RefusalKind} (h : q.Refused w kinds) : ¬ q.Put w e := by
  obtain ⟨f, answer, -⟩ := h
  rintro ⟨⟨r, hr⟩, -⟩
  exact nomatch answer.symm.trans hr

theorem refused_of_run {f : Failure} {w' : World} (h : q.run w = (.error f, w')) {kind : RefusalKind}
    (hf : f.isA kind = true) (kept : w'.tables = w.tables) : q.Refused w [kind] :=
  ⟨f, congrArg Prod.fst h, ⟨kind, List.mem_singleton_self kind, hf⟩,
    (congrArg (fun o => o.2.tables) h).trans kept⟩

theorem put_of_run {r : q.Reply} {w' : World} (h : q.run w = (.ok r, w'))
    (written : w'.tables = w.tables.put e) : q.Put w e :=
  ⟨⟨r, congrArg Prod.fst h⟩, (congrArg (fun o => o.2.tables) h).trans written⟩

/-- What the requests other than those for teams come to: a conflict, or the slot is free and nothing
but the absence of what the entry refers to is in the way. -/
def Careful (q : StoreCall) (w : World) (e : Tables.Entry) : Prop :=
  q.Refused w [.conflict] ∨ ¬ w.tables.Occupied e.slot ∧ (q.Refused w [.notFound] ∨ q.Put w e)

theorem createUser_careful (username : String) (isActive : Bool) (teamId : Identifier)
    (id? : Option Identifier) (w : World) :
    (createUser username isActive teamId id?).Careful w
      (.user (identify id? w.supply).1 ⟨(identify id? w.supply).1, username, isActive, teamId⟩) := by
  have hrun := run_createUser_eq username isActive teamId id? w
  dsimp only at hrun
  by_cases hknown : w.tables.users.contains (identify id? w.supply).1 = true
  · rw [if_pos hknown] at hrun
    exact .inl (refused_of_run hrun rfl rfl)
  · rw [if_neg hknown] at hrun
    split at hrun
    · exact .inl (refused_of_run hrun rfl rfl)
    · exact .inr ⟨fun h => hknown (Tables.occupied_iff.mp h), .inr (put_of_run hrun rfl)⟩

theorem createPullRequest_careful (id : Identifier) (name : String) (authorId : Identifier)
    (w : World) : (createPullRequest id name authorId).Careful w
      (.pullRequest id (.opening id name authorId w.supply.readClock.1)) := by
  cases hknown : w.tables.pullRequests.find? id with
  | some p => exact .inl (refused_of_run (run_createPullRequest_exists hknown name authorId) rfl rfl)
  | none =>
    refine .inr ⟨fun h => ?_, ?_⟩
    · obtain ⟨p, hp⟩ := Ledger.contains_eq_true.mp (Tables.occupied_iff.mp h)
      exact nomatch hknown.symm.trans hp
    · cases ha : w.tables.users.find? authorId with
      | none =>
        have hrun := run_createPullRequest_noAuthor hknown ha name
        exact .inl (refused_of_run hrun rfl rfl)
      | some author => exact .inr (put_of_run (run_createPullRequest hknown ha name) rfl)

theorem assign_careful (p u : Identifier) (w : World) : (assign p u).Careful w (.pair p u) := by
  by_cases hpair : (p, u) ∈ w.tables.reviewers
  · exact .inl (refused_of_run (run_assign_assigned hpair) rfl rfl)
  · refine .inr ⟨fun h => hpair (Tables.occupied_iff.mp h), ?_⟩
    cases hp : w.tables.pullRequests.find? p with
    | none => exact .inl (refused_of_run (run_assign_absent hpair (.inl hp)) rfl rfl)
    | some pr =>
      cases hu : w.tables.users.find? u with
      | none => exact .inl (refused_of_run (run_assign_absent hpair (.inr hu)) rfl rfl)
      | some user => exact .inr (put_of_run (run_assign hpair hp hu) rfl)

/-- A team of a free name is put in, whatever stands under its identifier. -/
theorem createTeam_put {name : String} (h : w.tables.teamNamed? name = none) :
    (createTeam name).Put w (.team w.supply.freshId.1 ⟨w.supply.freshId.1, name⟩) :=
  put_of_run (run_createTeam h) rfl

theorem createTeam_refused {name : String} {team : Team}
    (h : w.tables.teamNamed? name = some team) : (createTeam name).Refused w [.conflict] :=
  refused_of_run (run_createTeam_named h) rfl rfl

/-- The entry of a request goes where another one stands: a team that is handed the identifier of a
stored one, under a name that no team has. -/
def Displaces (q : StoreCall) (w : World) (e : Tables.Entry) : Prop :=
  ∃ name, q = createTeam name ∧ w.tables.teamNamed? name = none ∧ w.tables.Occupied e.slot

theorem careful_or_createTeam (creates : q.creation? w = some e) :
    q.Careful w e ∨ ∃ name, q = createTeam name := by
  cases q <;> cases creates
  case createTeam name => exact .inr ⟨name, rfl⟩
  case createUser username isActive teamId id? =>
    exact .inl (createUser_careful username isActive teamId id? w)
  case createPullRequest id name authorId => exact .inl (createPullRequest_careful id name authorId w)
  case assign p u => exact .inl (assign_careful p u w)

/-- **A request that creates adds, or is refused without a trace.** What it would put into a slot that
is taken is in conflict with what is there. Only a team can go where another one stands; then that one
is gone. -/
theorem adds_or_refused (creates : q.creation? w = some e) :
    (¬ q.Displaces w e →
      (q.Refused w [.conflict, .notFound] ∨
        (∃ r, (q.run w).1 = .ok r) ∧ w.tables.Adds e (q.run w).2.tables) ∧
      (w.tables.Occupied e.slot → q.Refused w [.conflict])) ∧
    (q.Displaces w e →
      (∃ r, (q.run w).1 = .ok r) ∧ ∃ old, w.tables.Holds old ∧ old.slot = e.slot ∧ old ≠ e ∧
        ∀ e', (q.run w).2.tables.Holds e' ↔ e' = e ∨ w.tables.Holds e' ∧ e' ≠ old) := by
  rcases careful_or_createTeam creates with hcareful | ⟨name, rfl⟩
  · constructor
    · rintro -
      rcases hcareful with hrefused | ⟨hfree, hrefused | ⟨hok, htables⟩⟩
      · exact ⟨.inl (hrefused.mono (by simp)), fun _ => hrefused⟩
      · exact ⟨.inl (hrefused.mono (by simp)), fun h => absurd h hfree⟩
      · rw [htables]
        exact ⟨.inr ⟨hok, Tables.adds_put hfree⟩, fun h => absurd h hfree⟩
    · rintro ⟨name, rfl, unnamed, occupied⟩
      cases creates
      rcases hcareful with hrefused | ⟨hfree, -⟩
      · exact absurd (createTeam_put unnamed) hrefused.not_put
      · exact absurd occupied hfree
  · cases creates
    cases hname : w.tables.teamNamed? name with
    | some team =>
      have hrefused := createTeam_refused hname
      refine ⟨fun _ => ⟨.inl (hrefused.mono (by simp)), fun _ => hrefused⟩, ?_⟩
      rintro ⟨name', hq, unnamed, -⟩
      cases hq
      exact nomatch hname.symm.trans unnamed
    | none =>
      obtain ⟨hok, htables⟩ := createTeam_put hname
      rw [htables]
      constructor
      · intro hspared
        have hfree := fun h => hspared ⟨name, rfl, hname, h⟩
        exact ⟨.inr ⟨hok, Tables.adds_put hfree⟩, fun h => absurd h hfree⟩
      · rintro ⟨-, -, -, old, held, same⟩
        have hne : old ≠ .team w.supply.freshId.1 ⟨w.supply.freshId.1, name⟩ := by
          rintro rfl
          exact Tables.teamNamed?_eq_none.mp hname _ _ held rfl
        refine ⟨hok, old, held, same, hne, fun e' => Tables.holds_put.trans (or_congr_right ?_)⟩
        refine and_congr_right fun held' => not_congr ?_
        rw [← same]
        exact ⟨held'.unique held, congrArg Tables.Entry.slot⟩

/-- One team is stored, and its identifier is the next one to be handed out. -/
def repeating : World := ⟨Tables.empty.put (.team (Supply.serial 1) ⟨Supply.serial 1, "core"⟩), default⟩

/-- A team takes the place of the stored one, and a user of that identifier is added. -/
theorem adds_or_refused_repeating :
    (createTeam "edge").Displaces repeating (.team (Supply.serial 1) ⟨Supply.serial 1, "edge"⟩) ∧
      (∃ r, ((createTeam "edge").run repeating).1 = .ok r) ∧
      ¬ ((createTeam "edge").run repeating).2.tables.Holds
        (.team (Supply.serial 1) ⟨Supply.serial 1, "core"⟩) ∧
      repeating.tables.Adds
        (.user (Supply.serial 1) ⟨Supply.serial 1, "ann", true, Supply.serial 1⟩)
        ((createUser "ann" true (Supply.serial 1) none).run repeating).2.tables := by
  have held : repeating.tables.Holds (.team (Supply.serial 1) ⟨Supply.serial 1, "core"⟩) := by
    show repeating.tables.teams.find? _ = _
    decide
  have hedge : (createTeam "edge").creation? repeating =
      some (.team (Supply.serial 1) ⟨Supply.serial 1, "edge"⟩) := rfl
  have hdisplaces : (createTeam "edge").Displaces repeating
      (.team (Supply.serial 1) ⟨Supply.serial 1, "edge"⟩) :=
    ⟨"edge", rfl, by decide, _, held, rfl⟩
  obtain ⟨hok, old, hold, same, -, hholds⟩ := (adds_or_refused hedge).2 hdisplaces
  obtain rfl := hold.unique held same
  have hann : (createUser "ann" true (Supply.serial 1) none).creation? repeating =
      some (.user (Supply.serial 1) ⟨Supply.serial 1, "ann", true, Supply.serial 1⟩) := rfl
  have hput : (createUser "ann" true (Supply.serial 1) none).Put repeating
      (.user (Supply.serial 1) ⟨Supply.serial 1, "ann", true, Supply.serial 1⟩) :=
    ⟨⟨_, rfl⟩, rfl⟩
  obtain ⟨hadds, -⟩ := (adds_or_refused hann).1 fun ⟨_, hq, _⟩ => nomatch hq
  refine ⟨hdisplaces, hok, fun h => ?_, (hadds.resolve_left fun h => h.not_put hput).2⟩
  rcases (hholds _).mp h with he | ⟨-, hne⟩
  · simp at he
  · exact hne rfl

end StoreCall

end ReviewRota
