import ReviewRota.Proofs.Work

/-!
# Operations are atomic

An operation on tables in memory works on a copy. As long as it is not over, whatever it does and
however it is nested, what is committed stays as it was, also for those parts of it that look at what
is committed. When it is over, all that it asked of the store counts if it ended well, and nothing
of it otherwise. Then the transactions are open that were open before, and the next operation starts
from what is committed.
-/

namespace ReviewRota

namespace Work

/-- The sessions that work passes through, with a view of the open transaction: those before each of
its steps and the last one. A transaction of the innermost open one adds nothing of its own. -/
inductive Passes (h : Handle) : {α : Type} → Work α → Session → Session → Prop where
  | here {α : Type} (work : Work α) (s : Session) : Passes h work s s
  | report {α : Type} {e : Event} {rest : Work α} {s m : Session}
      (later : Passes h rest (s.heard [e]) m) : Passes h (.report e rest) s m
  | ask {α : Type} {q : StoreCall} {next : Except Failure q.Reply → Work α}
      {r : Except Failure q.Reply} {s s' m : Session} (asked : (Course.ask h q).run s = some (r, s'))
      (later : Passes h (next r) s' m) : Passes h (.ask q next) s m
  | look {α β : Type} {p : Program β} {looks : p.Looks} {next : Except Failure β → Work α}
      {r : Except Failure β} {s s' m : Session}
      (looked : (do Course.converse (← Course.committed h.database) p : Course _).run s =
        some (r, s'))
      (later : Passes h (next r) s' m) : Passes h (.look p looks next) s m
  | inside {α β : Type} {body : Work β} {next : Except Failure β → Work α} {s m : Session}
      (joined : s.opened.head? = some h) (during : Passes h body s m) :
      Passes h (.transaction body next) s m
  | after {α β : Type} {body : Work β} {next : Except Failure β → Work α}
      {r : Except Failure β} {s s' m : Session}
      (settled : (Course.inTransaction h.database Except.isOk body.run).run s = some (r, s'))
      (later : Passes h (next r) s' m) : Passes h (.transaction body next) s m

/-- The moments of an operation, from the opening of its transaction to the end of its work. -/
def Moment {α : Type} (name : String) (work : Work α) (s m : Session) : Prop :=
  ∃ v, s.database name = .memory v ∧ work.Passes ⟨name, v.start.1⟩ (s.entered name v) m

/-- The session in which work ends is the last one that it passes through. -/
theorem passes_last {α : Type} {work : Work α} {h : Handle} {s s' : Session} {r : Except Failure α}
    (hrun : (work.run h).run s = some (r, s')) : work.Passes h s s' := by
  induction work generalizing s with
  | done a =>
    cases hrun
    exact .here _ _
  | fail f =>
    cases hrun
    exact .here _ _
  | report e rest ih => exact .report (ih hrun)
  | ask q next ih =>
    obtain ⟨r₁, s₁, hasked, hrest⟩ := Course.run_bind_eq_some.mp hrun
    exact .ask hasked (ih r₁ hrest)
  | look p looks next ih =>
    obtain ⟨view, s₁, hview, hrest⟩ := Course.run_bind_eq_some.mp hrun
    obtain ⟨r₁, s₂, hlooked, hrest⟩ := Course.run_bind_eq_some.mp hrest
    exact .look (Course.run_bind_eq_some.mpr ⟨view, s₁, hview, hlooked⟩) (ih r₁ hrest)
  | transaction body next _ ih =>
    obtain ⟨r₁, s₁, hover, hrest⟩ := Course.run_bind_eq_some.mp hrun
    exact .after hover (ih r₁ hrest)

end Work

namespace Session

/-- A view of what is committed shows these tables, to those as well who look at them through it. -/
structure Shows (view : Handle) (t : Tables) (s : Session) : Prop where
  committed : ∃ v, s.database view.database = .memory v ∧ v.current = view.version ∧ v.committed = t
  looked : ∀ {β : Type} (p : Program β), p.Looks → ∃ s',
    (Course.converse view p).run s = some ((p.on ⟨t, s.supply⟩).1, s')

/-- In the middle of an operation: its transaction is the innermost open one and works on a version
of its own, while the committed version `n` holds the tables that it has held from the beginning. -/
structure Inside (h : Handle) (opened : List Handle) (n : Nat) (t : Tables) (w : World)
    (s : Session) : Prop where
  tables : ∃ v, s.databases.lookup h.database = some (.memory v) ∧ h.version < v.versions.length ∧
    v.version h.version = w.tables ∧ v.current = n ∧ n < v.versions.length ∧ v.committed = t
  apart : n ≠ h.version
  supply : s.supply = w.supply
  opened : s.opened = h :: opened
  faultless : s.faults = []

variable {name : String} {h : Handle} {opened : List Handle} {n : Nat} {t : Tables} {w : World}
  {s s' : Session}

/-- A new transaction is on its way with a copy of what is committed. -/
theorem Rests.inside_entered {v : VersionedTables} (hs : s.Rests name t)
    (hv : s.database name = .memory v) :
    (s.entered name v).Inside ⟨name, v.start.1⟩ s.opened v.current t ⟨t, s.supply⟩ := by
  obtain ⟨v', hv', -, hn, rfl⟩ := hs.tables
  rw [hv] at hv'
  cases hv'
  have hlookup := lookup_putDatabase name (.memory v.start.2) s
  have hcommitted : v.start.2.committed = v.committed := by
    show v.start.2.version v.current = v.version v.current
    simp [VersionedTables.start, VersionedTables.version, List.getElem?_append_left hn]
  have hlength : v.current < v.start.2.versions.length := by
    simp only [VersionedTables.start, List.length_append, List.length_singleton]
    omega
  refine ⟨⟨v.start.2, hlookup, v.lt_length_start, v.version_start, rfl, hlength, hcommitted⟩,
    Nat.ne_of_lt hn, rfl, rfl, hs.faultless⟩

namespace Inside

theorem heard (hs : s.Inside h opened n t w) (es : List Event) :
    (s.heard es).Inside h opened n t w :=
  ⟨hs.tables, hs.apart, hs.supply, hs.opened, hs.faultless⟩

/-- A request changes the version of the transaction and no other. -/
theorem ask (hs : s.Inside h opened n t w) (q : StoreCall) :
    ∃ s', (Course.ask h q).run s = some ((q.run w).1, s') ∧ s'.Inside h opened n t (q.run w).2 := by
  obtain ⟨v, hv, hn, hw, hcurrent, hlt, hcommitted⟩ := hs.tables
  have hworld : (⟨v.version h.version, s.supply⟩ : World) = w := by rw [hw, hs.supply]
  have hrun := Course.ask_eq hv hs.faultless q
  rw [hworld] at hrun
  have hlookup := lookup_worked h v ⟨(q.run w).2, s.events⟩ s
  refine ⟨_, hrun, ⟨_, hlookup, ?_, ?_, hcurrent, ?_, ?_⟩, hs.apart, rfl, hs.opened, hs.faultless⟩
  · rwa [VersionedTables.length_write]
  · exact VersionedTables.version_write_self v hn _
  · rwa [VersionedTables.length_write]
  · show (v.write h.version _).version v.current = t
    rw [VersionedTables.version_write_of_ne (hcurrent ▸ hs.apart.symm)]
    exact hcommitted

/-- What is committed is the same as ever, and looking at it changes nothing. -/
theorem look (hs : s.Inside h opened n t w) {β : Type} {p : Program β} (hp : p.Looks) :
    ∃ es, (Course.converse ⟨h.database, n⟩ p).run s =
      some ((p.on ⟨t, s.supply⟩).1, s.heard es) := by
  obtain ⟨v, hv, -, -, rfl, hlt, rfl⟩ := hs.tables
  exact Course.converse_looks hp (h := ⟨h.database, v.current⟩) hv hlt hs.faultless

theorem committed (hs : s.Inside h opened n t w) :
    (Course.committed h.database).run s = some (⟨h.database, n⟩, s) := by
  obtain ⟨v, hv, -, -, rfl, -⟩ := hs.tables
  rw [Course.committed, StateT.run_bind, Course.database_eq hv]
  rfl

theorem look_committed (hs : s.Inside h opened n t w) {β : Type} {p : Program β} (hp : p.Looks) :
    ∃ s', (do Course.converse (← Course.committed h.database) p : Course _).run s =
      some ((p.on ⟨t, w.supply⟩).1, s') ∧ s'.Inside h opened n t w := by
  obtain ⟨es, hlooked⟩ := hs.look hp
  rw [hs.supply] at hlooked
  exact ⟨_, Course.run_bind_eq_some.mpr ⟨_, s, hs.committed, hlooked⟩, hs.heard es⟩

theorem shows (hs : s.Inside h opened n t w) : s.Shows ⟨h.database, n⟩ t where
  committed := by
    obtain ⟨v, hv, -, -, hcurrent, -, hcommitted⟩ := hs.tables
    exact ⟨v, database_of_lookup hv, hcurrent, hcommitted⟩
  looked p hp := by
    obtain ⟨es, hlooked⟩ := hs.look hp
    exact ⟨_, hlooked⟩

theorem joined (hs : s.Inside h opened n t w) {β : Type} (body : Work β) :
    (Course.inTransaction h.database Except.isOk body.run).run s = (body.run h).run s :=
  Course.inTransaction_joined hs.opened rfl Except.isOk body.run

/-- Work comes to its outcome and stays inside. -/
theorem run (hs : s.Inside h opened n t w) {α : Type} (work : Work α) :
    ∃ s', (work.run h).run s = some ((work.on t w).1, s') ∧
      s'.Inside h opened n t (work.on t w).2 := by
  induction work generalizing s w with
  | done a => exact ⟨s, rfl, hs⟩
  | fail f => exact ⟨s, rfl, hs⟩
  | report e rest ih => exact ih (hs.heard [e])
  | ask q next ih =>
    obtain ⟨s₁, hasked, hs₁⟩ := hs.ask q
    obtain ⟨s₂, hrest, hs₂⟩ := ih _ hs₁
    exact ⟨s₂, Course.run_bind_eq_some.mpr ⟨_, s₁, hasked, hrest⟩, hs₂⟩
  | look p looks next ih =>
    obtain ⟨s₁, hlooked, hs₁⟩ := hs.look_committed looks
    obtain ⟨s₂, hrest, hs₂⟩ := ih _ hs₁
    obtain ⟨view, s₃, hview, hlooked⟩ := Course.run_bind_eq_some.mp hlooked
    exact ⟨s₂, Course.run_bind_eq_some.mpr ⟨view, s₃, hview,
      Course.run_bind_eq_some.mpr ⟨_, s₁, hlooked, hrest⟩⟩, hs₂⟩
  | transaction body next ihbody ih =>
    obtain ⟨s₁, hbody, hs₁⟩ := ihbody hs
    obtain ⟨s₂, hrest, hs₂⟩ := ih _ hs₁
    rw [← hs.joined body] at hbody
    exact ⟨s₂, Course.run_bind_eq_some.mpr ⟨_, s₁, hbody, hrest⟩, hs₂⟩

/-- Whatever work passes through is inside, too. -/
theorem passes {α : Type} {work : Work α} {m : Session} (hm : work.Passes h s m)
    (hs : s.Inside h opened n t w) : ∃ w', m.Inside h opened n t w' := by
  induction hm generalizing w with
  | here work s => exact ⟨w, hs⟩
  | report later ih => exact ih (hs.heard _)
  | @ask _ q _ r s s' m asked later ih =>
    obtain ⟨s₁, hasked, hs₁⟩ := hs.ask q
    rw [asked] at hasked
    cases hasked
    exact ih hs₁
  | @look _ _ p looks _ r s s' m looked later ih =>
    obtain ⟨s₁, hlooked, hs₁⟩ := hs.look_committed looks
    rw [looked] at hlooked
    cases hlooked
    exact ih hs₁
  | inside _ _ ih => exact ih hs
  | @after _ _ body _ r s s' m settled later ih =>
    obtain ⟨s₁, hbody, hs₁⟩ := hs.run body
    rw [← hs.joined body, settled] at hbody
    cases hbody
    exact ih hs₁

/-- At the end the version of the transaction is committed or given up. -/
theorem rests_left {k : Nat} (hs : s.Inside ⟨name, k⟩ opened n t w)
    (outside : ∀ h ∈ opened.head?, h.database ≠ name) (well : Bool) :
    (s.left name opened k well).Rests name (if well then w.tables else t) := by
  obtain ⟨v, hv, hk, hw, hcurrent, hlt, hcommitted⟩ := hs.tables
  have hdatabase : (s.left name opened k well).database name = .memory (v.finish k well) := by
    rw [left, database_putDatabase, if_pos rfl, database_of_lookup hv]
    rfl
  refine ⟨⟨v.finish k well, hdatabase, rfl, ?_, ?_⟩, outside, hs.faultless⟩
  · cases well with
    | true => exact hk
    | false => exact hcurrent ▸ hlt
  · cases well with
    | true => exact hw
    | false => exact hcommitted

end Inside

end Session

namespace Work

variable {α : Type} {name : String} {t : Tables} {s : Session}

/-- An operation on tables at rest, from one session to another, is atomic. -/
structure Atomic (name : String) (t : Tables) (work : Work α) (s s' : Session) : Prop where
  /-- It starts a transaction of its own. -/
  starts : (Course.inTransaction name Except.isOk work.run).run s =
    (Course.newTransaction name Except.isOk work.run).run s
  ran : (Course.inTransaction name Except.isOk work.run).run s = some (work.outcome t s.supply, s')
  /-- Until it is over, every view of what is committed shows what was committed before. -/
  unchanged : ∃ n, ∀ m, work.Moment name s m → m.Shows ⟨name, n⟩ t
  /-- After the last moment there is nothing but the end of the transaction. -/
  ended : ∃ v last, s.database name = .memory v ∧
    work.Passes ⟨name, v.start.1⟩ (s.entered name v) last ∧
    s' = last.left name s.opened v.start.1 (work.outcome t s.supply).isOk
  /-- Then all its requests count or none of them. -/
  committed : s'.Rests name (work.leaves t s.supply)
  /-- The transactions are open that were open before. -/
  restored : s'.opened = s.opened

theorem exists_atomic (hs : s.Rests name t) (work : Work α) : ∃ s', Atomic name t work s s' := by
  obtain ⟨v, hv, hb, -, -⟩ := hs.tables
  have hentered := hs.inside_entered hv
  obtain ⟨last, hrun, hlast⟩ := hentered.run work
  have hnew : (Course.newTransaction name Except.isOk work.run).run s = _ :=
    Course.newTransaction_eq hv hb hrun
  have halone := Course.inTransaction_alone hs.outside Except.isOk work.run
  refine ⟨_, halone, halone.trans hnew, ⟨v.current, ?_⟩, ⟨v, last, hv, passes_last hrun, rfl⟩, ?_, rfl⟩
  · rintro m ⟨v', hv', hm⟩
    rw [hv] at hv'
    cases hv'
    obtain ⟨w', hinside⟩ := hentered.passes hm
    exact hinside.shows
  · have hrests := hlast.rests_left hs.outside (work.outcome t s.supply).isOk
    rw [on_snd] at hrests
    exact hrests

/-- **Operations on tables in memory are atomic**, however transactions, failures and attempts are
nested in them, and so is the next one, on what they have committed. -/
theorem atomic (hs : s.Rests name t) (work : Work α) :
    ∃ s', Atomic name t work s s' ∧
      ∀ {β : Type} (next : Work β), ∃ s'', Atomic name (work.leaves t s.supply) next s' s'' := by
  obtain ⟨s', hwork⟩ := exists_atomic hs work
  exact ⟨s', hwork, fun next => exists_atomic hwork.committed next⟩

/-- A team is created, another one in a transaction inside whose failure is caught. -/
def twoTeams : Work Unit :=
  .ask (.createTeam "core") fun _ =>
    .transaction (β := Unit) (.ask (.createTeam "docs") fun _ => .fail (.interrupted "stop")) fun _ =>
      .done ()

/-- The second team stays, although its transaction failed. -/
theorem atomic_twoTeams :
    (Session.holding "rota" .empty default).Rests "rota" .empty ∧
      ((twoTeams.leaves .empty default).teams.values.map Team.name = ["core", "docs"]) ∧
      ∃ s', Atomic "rota" .empty twoTeams (.holding "rota" .empty default) s' ∧
        ∀ {β : Type} (next : Work β),
          ∃ s'', Atomic "rota" (twoTeams.leaves .empty default) next s' s'' := by
  have hs := Session.rests_holding "rota" .empty default
  exact ⟨hs, by decide, atomic hs twoTeams⟩

end Work

end ReviewRota
