import ReviewRota.Proofs.Steps
import ReviewRota.Proofs.Transactions

/-!
# Commands in a session

What a command finds when it is made in a session: tables at rest, on which it is a transaction
of its own, or the tables of an open transaction, which it joins. Either way it does to the tables
that it finds what its dialogue does to tables alone, and whoever comes next finds the outcome.
-/

namespace ReviewRota

namespace Session

/-- The tables of a database in memory are at rest: a call finds what is committed. -/
structure Rests (name : String) (t : Tables) (s : Session) : Prop where
  tables : ∃ v, s.database name = .memory v ∧ v.busy = false ∧
    v.current < v.versions.length ∧ v.committed = t
  outside : ∀ h ∈ s.opened.head?, h.database ≠ name
  faultless : s.faults = []

/-- The innermost open transaction works on tables of a database in memory: a call joins it. -/
structure Joins (name : String) (t : Tables) (s : Session) : Prop where
  tables : ∃ h rest v, s.opened = h :: rest ∧ h.database = name ∧
    s.databases.lookup name = some (.memory v) ∧ h.version < v.versions.length ∧
    v.version h.version = t
  faultless : s.faults = []

/-- The tables that a call finds. -/
inductive Finds (name : String) (t : Tables) (s : Session) : Prop where
  | rests (h : s.Rests name t)
  | joins (h : s.Joins name t)

variable {name : String} {t t' : Tables} {s : Session}

theorem Rests.heard (hs : s.Rests name t) (es : List Event) : (s.heard es).Rests name t :=
  ⟨hs.tables, hs.outside, hs.faultless⟩

theorem Joins.heard (hs : s.Joins name t) (es : List Event) : (s.heard es).Joins name t :=
  ⟨hs.tables, hs.faultless⟩

theorem heard_heard (s : Session) (es fs : List Event) :
    (s.heard es).heard fs = s.heard (es ++ fs) := by
  simp [heard]

theorem Rests.unique (hs : s.Rests name t) (hs' : s.Rests name t') : t = t' := by
  obtain ⟨v, hv, -, -, rfl⟩ := hs.tables
  obtain ⟨v', hv', -, -, rfl⟩ := hs'.tables
  rw [hv] at hv'
  cases hv'
  rfl

theorem Joins.unique (hs : s.Joins name t) (hs' : s.Joins name t') : t = t' := by
  obtain ⟨h, rest, v, ho, -, hv, -, rfl⟩ := hs.tables
  obtain ⟨h', rest', v', ho', -, hv', -, rfl⟩ := hs'.tables
  rw [ho] at ho'
  rw [hv] at hv'
  cases ho'
  cases hv'
  rfl

theorem Rests.not_joins (hs : s.Rests name t) : ¬ s.Joins name t' := by
  intro hs'
  obtain ⟨h, rest, v, ho, hn, -⟩ := hs'.tables
  have hhead : h ∈ s.opened.head? := by
    rw [ho, List.head?_cons]
    rfl
  exact hs.outside h hhead hn

/-- There are no two answers to the question what a call finds. -/
theorem Finds.unique (hs : s.Finds name t) (hs' : s.Finds name t') : t = t' := by
  rcases hs with hs | hs <;> rcases hs' with hs' | hs'
  · exact hs.unique hs'
  · exact absurd hs' hs.not_joins
  · exact absurd hs hs'.not_joins
  · exact hs.unique hs'

/-- A session in which nothing has happened but that tables are there. -/
def holding (name : String) (t : Tables) (supply : Supply) : Session where
  inMemory := true
  supply := supply
  databases := [(name, .memory { versions := [t] })]

@[simp] theorem supply_holding (name : String) (t : Tables) (supply : Supply) :
    (holding name t supply).supply = supply := rfl

theorem rests_holding (name : String) (t : Tables) (supply : Supply) :
    (holding name t supply).Rests name t := by
  refine ⟨⟨{ versions := [t] }, ?_, rfl, ?_, rfl⟩, ?_, rfl⟩
  · simp [database, holding]
  · exact Nat.zero_lt_one
  · simp [holding]

/-- Inside a new transaction calls find the tables that are committed. -/
theorem Rests.joins_entered {v : VersionedTables} (hs : s.Rests name t)
    (hv : s.database name = .memory v) : (s.entered name v).Joins name t := by
  obtain ⟨v', hv', -, -, rfl⟩ := hs.tables
  rw [hv] at hv'
  cases hv'
  have hlookup := lookup_putDatabase name (.memory v.start.2) s
  exact ⟨⟨⟨name, v.start.1⟩, s.opened, v.start.2, rfl, rfl, hlookup, v.lt_length_start,
    v.version_start⟩, hs.faultless⟩

end Session

namespace Course

variable {name : String} {t : Tables} {s : Session} {α : Type}

/-! ## Transactions around a dialogue -/

/-- A dialogue inside an open transaction works on the version of that transaction. -/
theorem inTransaction_joins (hs : s.Joins name t) (p : Program α) :
    ∃ s', (inTransaction name Except.isOk fun h => converse h p).run s =
        some ((p.on ⟨t, s.supply⟩).1, s') ∧
      s'.Joins name (p.on ⟨t, s.supply⟩).2.tables := by
  obtain ⟨h, rest, v, ho, rfl, hv, hn, rfl⟩ := hs.tables
  obtain ⟨hr, hw⟩ := p.run_eq_on ⟨⟨v.version h.version, s.supply⟩, s.events⟩
  have hrun := converse_eq p hv hn hs.faultless
  rw [hr, ← inTransaction_joined ho rfl Except.isOk fun h => converse h p] at hrun
  have hlookup := Session.lookup_worked h v
    (p.run ⟨⟨v.version h.version, s.supply⟩, s.events⟩).2 s
  refine ⟨_, hrun, ⟨h, rest, _, ho, rfl, hlookup, ?_, ?_⟩, hs.faultless⟩
  · rwa [VersionedTables.length_write]
  · rw [VersionedTables.version_write_self v hn, hw]

/-- A dialogue inside an open transaction that keeps the tables leaves nothing but events. -/
theorem inTransaction_joins_of_kept (hs : s.Joins name t) {p : Program α}
    {r : Except Failure α} (hp : p.on ⟨t, s.supply⟩ = (r, ⟨t, s.supply⟩)) :
    ∃ es, (inTransaction name Except.isOk fun h => converse h p).run s =
      some (r, s.heard es) := by
  obtain ⟨h, rest, v, ho, rfl, hv, hn, rfl⟩ := hs.tables
  obtain ⟨hr, hw⟩ := p.run_eq_on ⟨⟨v.version h.version, s.supply⟩, s.events⟩
  obtain ⟨es, hes⟩ := p.exists_events ⟨⟨v.version h.version, s.supply⟩, s.events⟩
  have hrun := converse_eq p hv hn hs.faultless
  rw [hp] at hr hw
  have haccount : (p.run ⟨⟨v.version h.version, s.supply⟩, s.events⟩).2 =
      ⟨⟨v.version h.version, s.supply⟩, s.events ++ es⟩ :=
    congrArg₂ Account.mk hw hes
  rw [hr, haccount, Session.worked_same hv hn] at hrun
  exact ⟨es, (inTransaction_joined ho rfl _ _).trans hrun⟩

/-- A dialogue of its own works on a copy, which is committed if it goes well. -/
theorem inTransaction_rests (hs : s.Rests name t) (p : Program α) :
    ∃ s', (inTransaction name Except.isOk fun h => converse h p).run s =
        some ((p.on ⟨t, s.supply⟩).1, s') ∧
      s'.Rests name
        (if (p.on ⟨t, s.supply⟩).1.isOk then (p.on ⟨t, s.supply⟩).2.tables else t) := by
  obtain ⟨v, hv, hb, hn, rfl⟩ := hs.tables
  obtain ⟨hr, hw⟩ := p.run_eq_on ⟨⟨v.committed, s.supply⟩, s.events⟩
  -- inside, the call works on the copy; the session around it is settled when it is left
  have hlookup : (s.entered name v).databases.lookup name = some (.memory v.start.2) :=
    Session.lookup_putDatabase name _ s
  have hbody := converse_eq p (h := ⟨name, v.start.1⟩) hlookup v.lt_length_start hs.faultless
  rw [v.version_start, Session.supply_entered, Session.events_entered, hr] at hbody
  have hrun : (newTransaction name Except.isOk fun h => converse h p).run s = _ :=
    newTransaction_eq hv hb hbody
  rw [← inTransaction_alone hs.outside] at hrun
  refine ⟨_, hrun, ⟨_, Session.database_left_worked _ _ _ _ _ _, rfl, ?_, ?_⟩, hs.outside,
    hs.faultless⟩
  · exact VersionedTables.current_settled_lt hn _ _
  · rw [VersionedTables.committed_settled hn, hw]

/-! ## Commands -/

/-- A command comes to what its transaction comes to; its event is reported afterwards. -/
theorem command_eq {c : Command} {w : World} {s' : Session} (he : c.Ends w)
    (h : (inTransaction name Except.isOk fun h => converse h c.program).run s =
      some ((c.program.on w).1, s')) :
    ∃ es, (command name c).run s = some ((c.program.on w).1, s'.heard es) := by
  have hok : ∀ r e, (c.program.on w).1 = .ok r → c.report r = .ok e →
      (command name c).run s = some (.ok r, s'.heard [e]) := by
    intro r e hr hreported
    rw [hr] at h
    simp only [command, StateT.run_bind, h, Option.bind_eq_bind, Option.bind_some, hreported]
    rfl
  cases he with
  | refused f hf =>
    rw [hf] at h ⊢
    refine ⟨[], ?_⟩
    simp only [command, StateT.run_bind, h, Option.bind_eq_bind, Option.bind_some]
    simp [Session.heard]
  | kept r e hk hreported =>
    have hr : (c.program.on w).1 = .ok r := by rw [hk]
    exact ⟨[e], by rw [hok r e hr hreported, hr]⟩
  | changed r e w' hc hreported change =>
    have hr : (c.program.on w).1 = .ok r := by rw [hc]
    exact ⟨[e], by rw [hok r e hr hreported, hr]⟩

/-- A command inside an open transaction. -/
theorem command_joins (hs : s.Joins name t) (hi : t.Integrity) {c : Command}
    (hp : c.Proper ⟨t, s.supply⟩) :
    ∃ s', (command name c).run s = some ((c.program.on ⟨t, s.supply⟩).1, s') ∧
      s'.Joins name (c.program.on ⟨t, s.supply⟩).2.tables := by
  obtain ⟨s', hrun, hs'⟩ := inTransaction_joins hs c.program
  obtain ⟨es, hc⟩ := command_eq (Command.ends hi hp) hrun
  exact ⟨_, hc, hs'.heard es⟩

/-- A command on tables at rest. -/
theorem command_rests (hs : s.Rests name t) (hi : t.Integrity) {c : Command}
    (hp : c.Proper ⟨t, s.supply⟩) :
    ∃ s', (command name c).run s = some ((c.program.on ⟨t, s.supply⟩).1, s') ∧
      s'.Rests name (c.program.on ⟨t, s.supply⟩).2.tables := by
  have he := Command.ends hi hp
  obtain ⟨s', hrun, hs'⟩ := inTransaction_rests hs c.program
  obtain ⟨es, hc⟩ := command_eq he hrun
  refine ⟨_, hc, Session.Rests.heard ?_ es⟩
  cases he with
  | refused f h => rwa [h] at hs' ⊢
  | kept r e h => rwa [h] at hs' ⊢
  | changed r e w' h => rwa [h] at hs' ⊢

/-- A command whose dialogue comes to this on tables at rest. -/
theorem command_rests_of_on (hs : s.Rests name t) (hi : t.Integrity) {c : Command}
    (hp : c.Proper ⟨t, s.supply⟩) {r : Except Failure c.Result} {w : World}
    (hon : c.program.on ⟨t, s.supply⟩ = (r, w)) :
    ∃ s', (command name c).run s = some (r, s') ∧ s'.Rests name w.tables ∧ w.tables.Integrity := by
  obtain ⟨s', hrun, hs'⟩ := command_rests hs hi hp
  have hi' := Command.integrity_on hi hp
  rw [hon] at hrun hs' hi'
  exact ⟨s', hrun, hs', hi'⟩

/-- **Every command comes to an end**, and whoever comes next finds what it made of the tables. -/
theorem command_finds (hs : s.Finds name t) (hi : t.Integrity) {c : Command}
    (hp : c.Proper ⟨t, s.supply⟩) :
    ∃ s', (command name c).run s = some ((c.program.on ⟨t, s.supply⟩).1, s') ∧
      s'.Finds name (c.program.on ⟨t, s.supply⟩).2.tables := by
  rcases hs with hs | hs
  · obtain ⟨s', hrun, hs'⟩ := command_rests hs hi hp
    exact ⟨s', hrun, .rests hs'⟩
  · obtain ⟨s', hrun, hs'⟩ := command_joins hs hi hp
    exact ⟨s', hrun, .joins hs'⟩

/-! ## Queries -/

/-- A query on tables at rest sees what is committed. -/
theorem query_rests (hs : s.Rests name t) (q : Query) :
    ∃ s', (query name q).run s = some ((q.program.on ⟨t, s.supply⟩).1, s') := by
  obtain ⟨v, hv, -, hn, rfl⟩ := hs.tables
  have hview : (committed name).run s =
      some (⟨name, v.current⟩, s.putDatabase name (.memory v)) := by
    simp only [committed, StateT.run_bind, Course.database, StateT.run_modifyGet,
      Option.pure_def, Option.bind_eq_bind, Option.bind_some, hv]
    rfl
  have hlookup := Session.lookup_putDatabase name (.memory v) s
  have hrun := converse_eq q.program (h := ⟨name, v.current⟩) hlookup hn hs.faultless
  obtain ⟨hr, -⟩ := q.program.run_eq_on ⟨⟨v.committed, s.supply⟩, s.events⟩
  refine ⟨_, Eq.trans ?_ (hrun.trans (congrArg (fun r => some (r, _)) hr))⟩
  rw [query, StateT.run_bind, hview]
  rfl

end Course

end ReviewRota
