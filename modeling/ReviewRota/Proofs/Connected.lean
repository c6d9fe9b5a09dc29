import ReviewRota.Proofs.Advancing
import ReviewRota.Proofs.Nesting
import ReviewRota.Proofs.Tasks

/-!
# Calls over a connection

How a session carries a call out whose database is reached over a connection. The session asks the
connection one thing after the other; when the answers are those of a database, the exchange has
advanced with the contents of that database, and the contents in the end are those that the
transaction has written, or the old ones after a rollback. The other way round, whatever a database
can answer can be laid down as the answers of a connection.
-/

namespace ReviewRota

open Sql

namespace Dialogue

variable {Ask : Type} {Reply : Ask → Type} {α β : Type} {m : Type → Type} [Monad m] [LawfulMonad m]

/-- Holding a dialogue and what follows its outcome is holding one after the other. -/
theorem hold_settle (answer : (q : Ask) → m (Except Failure (Reply q))) (report : Event → m Unit)
    (d : Dialogue Ask Reply α) (k : Except Failure α → Dialogue Ask Reply β) :
    (d.settle k).hold answer report =
      d.hold answer report >>= fun r => (k r).hold answer report := by
  induction d with
  | done a => simp [settle, hold]
  | fail f => simp [settle, hold]
  | note e rest ih => simp [settle, hold, ih]
  | ask q next ih => simp [settle, hold, ih]

end Dialogue

theorem Sql.Connection.send_eq (mode : Mode) (st : Statement) (c : Connection) :
    c.send mode st =
      (c.script.headD (.ok .nothing), ⟨c.script.tail, .send mode st :: c.trace⟩) := by
  obtain ⟨script, trace⟩ := c
  cases script <;> rfl

/-- A session reaches a database over a connection with answers still to come, which was asked to do
some things up to now. -/
def Session.Reaches (name : String) (script : List Scripted) (acts : List Action) (s : Session) :
    Prop :=
  s.databases.lookup name = some (.connected ⟨script, acts.reverse⟩)

namespace Course

variable {α : Type} {name : String} {s : Session} {script : List Scripted} {past : List Action}

/-! ## Exchanges -/

theorem askConnection_eq {c : Connection} (hc : s.databases.lookup name = some (.connected c))
    (q : Ask) : (askConnection name q).run s = some ((Connection.answer q (c, s.supply)).1,
      { s with supply := (Connection.answer q (c, s.supply)).2.2 }.putDatabase name
        (.connected (Connection.answer q (c, s.supply)).2.1)) := by
  rw [askConnection, StateT.run_bind, database_eq hc]
  rfl

theorem exchange_ask {c : Connection} (hc : s.databases.lookup name = some (.connected c)) (q : Ask)
    (next : Except Failure q.Reply → Exchange α) :
    (exchange name (.ask q next)).run s =
      (exchange name (next (Connection.answer q (c, s.supply)).1)).run
        ({ s with supply := (Connection.answer q (c, s.supply)).2.2 }.putDatabase name
          (.connected (Connection.answer q (c, s.supply)).2.1)) := by
  rw [exchange, Dialogue.hold, StateT.run_bind, askConnection_eq hc]
  rfl

/-- Sending takes the next answer and leaves a trace. -/
theorem exchange_send (hs : s.Reaches name script past) (mode : Mode) (st : Statement)
    (next : Scripted → Exchange α) :
    ∃ s', (exchange name (.ask (.send mode st) next)).run s =
        (exchange name (next (script.headD (.ok .nothing)))).run s' ∧
      s'.Reaches name script.tail (past ++ [.send mode st]) ∧ s'.supply = s.supply := by
  have hanswer : Connection.answer (.send mode st) (⟨script, past.reverse⟩, s.supply) =
      (script.headD (.ok .nothing), ⟨script.tail, .send mode st :: past.reverse⟩, s.supply) := by
    simp only [Connection.answer, Connection.send_eq]
  refine ⟨s.putDatabase name (.connected ⟨script.tail, .send mode st :: past.reverse⟩), ?_, ?_, rfl⟩
  · rw [exchange_ask hs, hanswer]
  · rw [Session.Reaches, List.reverse_append]
    exact Session.lookup_putDatabase ..

/-- The clock and the identifiers are not those of the connection. -/
theorem exchange_clock (hs : s.Reaches name script past) (next : Except Failure Instant → Exchange α) :
    ∃ s', (exchange name (.ask .clock next)).run s =
        (exchange name (next (.ok s.supply.readClock.1))).run s' ∧
      s'.Reaches name script past ∧ s'.supply = s.supply.readClock.2 :=
  ⟨_, exchange_ask hs _ _, Session.lookup_putDatabase .., rfl⟩

theorem exchange_freshId (hs : s.Reaches name script past)
    (next : Except Failure Identifier → Exchange α) :
    ∃ s', (exchange name (.ask .freshId next)).run s =
        (exchange name (next (.ok s.supply.freshId.1))).run s' ∧
      s'.Reaches name script past ∧ s'.supply = s.supply.freshId.2 :=
  ⟨_, exchange_ask hs _ _, Session.lookup_putDatabase .., rfl⟩

/-- An exchange over a connection comes to an end. If the answers are those of a database, it has
advanced with the contents of the database. -/
theorem exchange_of_serves (e : Exchange α) (hs : s.Reaches name script past) :
    ∃ r s' acts left, (exchange name e).run s = some (r, s') ∧ s'.Reaches name left (past ++ acts) ∧
      ∀ start d ws later after, Serves start (Contents.writeAll ws d) (acts ++ later) script after →
        ∃ ws', Exchange.Reaches d ⟨e, s.supply, ws⟩ (.ended r s'.supply ws') ∧
          Serves start (d.writeAll ws') later left after := by
  -- what is written so far stays apart from the contents at the start, so that the steps of the rest
  -- are steps on the same contents
  have hpast : s.Reaches name script (past ++ []) := by rwa [List.append_nil]
  induction e generalizing s script past with
  | done a => exact ⟨.ok a, s, [], script, rfl, hpast, fun _ _ ws _ _ h => ⟨ws, .refl, h⟩⟩
  | fail f => exact ⟨.error f, s, [], script, rfl, hpast, fun _ _ ws _ _ h => ⟨ws, .refl, h⟩⟩
  | note e rest ih =>
    obtain ⟨r, s', acts, left, hrun, hs', hserves⟩ :=
      ih (s := { s with events := s.events ++ [e] }) hs hpast
    refine ⟨r, s', acts, left, hrun, hs', fun start d ws later after h => ?_⟩
    obtain ⟨ws', hreaches, hrest⟩ := hserves start d ws later after h
    exact ⟨ws', .head .note hreaches, hrest⟩
  | ask q next ih =>
    cases q with
    | clock =>
      obtain ⟨s₁, hstep, hs₁, hsupply⟩ := exchange_clock hs next
      obtain ⟨r, s', acts, left, hrun, hs', hserves⟩ :=
        ih (.ok s.supply.readClock.1) hs₁ (by rwa [List.append_nil])
      refine ⟨r, s', acts, left, hstep.trans hrun, hs', fun start d ws later after h => ?_⟩
      obtain ⟨ws', hreaches, hrest⟩ := hserves start d ws later after h
      rw [hsupply] at hreaches
      exact ⟨ws', .head .clock hreaches, hrest⟩
    | freshId =>
      obtain ⟨s₁, hstep, hs₁, hsupply⟩ := exchange_freshId hs next
      obtain ⟨r, s', acts, left, hrun, hs', hserves⟩ :=
        ih (.ok s.supply.freshId.1) hs₁ (by rwa [List.append_nil])
      refine ⟨r, s', acts, left, hstep.trans hrun, hs', fun start d ws later after h => ?_⟩
      obtain ⟨ws', hreaches, hrest⟩ := hserves start d ws later after h
      rw [hsupply] at hreaches
      exact ⟨ws', .head .freshId hreaches, hrest⟩
    | send mode st =>
      obtain ⟨s₁, hstep, hs₁, hsupply⟩ := exchange_send hs mode st next
      obtain ⟨r, s', acts, left, hrun, hs', hserves⟩ :=
        ih (script.headD (.ok .nothing)) hs₁ (by rwa [List.append_nil])
      rw [List.append_assoc] at hs'
      refine ⟨r, s', .send mode st :: acts, left, hstep.trans hrun, hs',
        fun start d ws later after h => ?_⟩
      obtain ⟨more, hexecutes, hrest⟩ := h
      rw [← Exchange.Progress.writeAll_append] at hrest
      obtain ⟨ws', hreaches, hlater⟩ := hserves start d (ws ++ more) later after hrest
      rw [hsupply] at hreaches
      exact ⟨ws', .head (.send hexecutes) hreaches, hlater⟩

/-- Whatever an exchange can come to with the contents of a database, it comes to over a connection
with the right answers. -/
theorem exists_script (name : String) {d : Contents} {P : Exchange.Progress α} {r : Except Failure α}
    {supply : Supply} {ws : List Write} (h : Exchange.Reaches d P (.ended r supply ws)) :
    ∃ script, ∀ (s : Session) past left, s.Reaches name (script ++ left) past → s.supply = P.supply →
      ∃ s' acts, (exchange name P.rest).run s = some (r, s') ∧ s'.Reaches name left (past ++ acts) ∧
        ∀ start later after, Serves start (d.writeAll ws) later left after →
          Serves start (d.writeAll P.writes) (acts ++ later) (script ++ left) after := by
  induction h using Relation.ReflTransGen.head_induction_on with
  | refl =>
    refine ⟨[], fun s past left hs _ => ⟨s, [], ?_, by rwa [List.append_nil], fun _ _ _ h => h⟩⟩
    cases r <;> rfl
  | head step _ ih =>
    obtain ⟨script, hscript⟩ := ih
    cases step with
    | @note e rest supply ws =>
      refine ⟨script, fun s past left hs hsupply => ?_⟩
      exact hscript { s with events := s.events ++ [e] } past left hs hsupply
    | clock =>
      refine ⟨script, fun s past left hs hsupply => ?_⟩
      obtain ⟨s₁, hstep, hs₁, hsupply₁⟩ := exchange_clock hs _
      rw [hsupply] at hstep hsupply₁
      obtain ⟨s', acts, hrun, hrest⟩ := hscript s₁ past left hs₁ hsupply₁
      exact ⟨s', acts, hstep.trans hrun, hrest⟩
    | freshId =>
      refine ⟨script, fun s past left hs hsupply => ?_⟩
      obtain ⟨s₁, hstep, hs₁, hsupply₁⟩ := exchange_freshId hs _
      rw [hsupply] at hstep hsupply₁
      obtain ⟨s', acts, hrun, hrest⟩ := hscript s₁ past left hs₁ hsupply₁
      exact ⟨s', acts, hstep.trans hrun, hrest⟩
    | @send mode st next supply ws more a executes =>
      refine ⟨a :: script, fun s past left hs hsupply => ?_⟩
      obtain ⟨s₁, hstep, hs₁, hsupply₁⟩ := exchange_send hs mode st next
      obtain ⟨s', acts, hrun, hs', hserves⟩ := hscript s₁ _ left hs₁ (hsupply₁.trans hsupply)
      rw [List.append_assoc] at hs'
      refine ⟨s', .send mode st :: acts, hstep.trans hrun, hs', fun start later after h => ?_⟩
      refine ⟨more, executes, ?_⟩
      rw [← Exchange.Progress.writeAll_append]
      exact hserves start later after h

/-! ## Calls -/

/-- A call over a connection is one exchange. -/
theorem converse_connected (p : Program α) (h : Handle) (hs : s.Reaches h.database script past) :
    (converse h p).run s = (exchange h.database (p.refine perform)).run s := by
  induction p generalizing s script past with
  | done a => rfl
  | fail f => rfl
  | note e rest ih => exact ih (s := { s with events := s.events ++ [e] }) hs
  | ask q next ih =>
    obtain ⟨r, s', acts, left, hrun, hs', -⟩ := exchange_of_serves (perform q) hs
    have hask : (ask h q).run s = some (r, s') := by
      rw [ask, StateT.run_bind, database_eq hs]
      exact hrun
    rw [converse, Dialogue.hold, StateT.run_bind, hask, exchange, Dialogue.refine,
      Dialogue.hold_settle, StateT.run_bind, ← exchange, hrun]
    exact ih r hs'

/-- A call that is not inside a transaction of its database is an exchange in a transaction of its
own. -/
theorem inTransaction_connected (p : Program α)
    (hc : s.database name = .connected ⟨script, past.reverse⟩)
    (outside : ∀ h ∈ s.opened.head?, h.database ≠ name) :
    ∃ s₀, s₀.Reaches name script (past ++ [.acquire, .begin]) ∧ s₀.supply = s.supply ∧
      ∀ r s₁ acts left, (exchange name (p.refine perform)).run s₀ = some (r, s₁) →
        s₁.Reaches name left (past ++ [.acquire, .begin] ++ acts) →
          ∃ s', (inTransaction name Except.isOk fun h => converse h p).run s = some (r, s') ∧
            (s'.database name).trace = past ++ [.acquire, .begin] ++ acts ++
              [if r.isOk then .commit else .rollback, .release] := by
  have hbegun : Session.Reaches name script (past ++ [.acquire, .begin])
      (s.begun name ⟨script, past.reverse⟩) := by
    rw [Session.Reaches, List.reverse_append]
    exact Session.lookup_putDatabase ..
  refine ⟨_, hbegun, rfl, fun r s₁ acts left hrun hs₁ => ?_⟩
  have hbody := (converse_connected p ⟨name, 0⟩ hbegun).trans hrun
  have hwhole : (newTransaction name Except.isOk fun h => converse h p).run s = _ :=
    newTransaction_begins hc hbody
  rw [← inTransaction_alone outside] at hwhole
  refine ⟨_, hwhole, ?_⟩
  have hdatabase : Session.database name (s₁.released name s.opened r.isOk) = _ :=
    Session.database_putDatabase name name _ _
  rw [if_pos rfl, Session.database_of_lookup hs₁] at hdatabase
  rw [hdatabase]
  simp [Database.trace, Database.onConnection, Connection.note]

end Course

namespace Task

variable {name : String} {s : Session} {script : List Scripted}

/-- What a connection is asked to do before the exchange of a call. -/
def prologue (t : Task) : List Action := if t.writes then [.acquire, .begin] else []

/-- What a connection is asked to do after the exchange of a call. -/
def epilogue (t : Task) (well : Bool) : List Action :=
  if t.writes then [if well then .commit else .rollback, .release] else []

/-- A call finds a database over a connection that was not asked to do anything yet. -/
structure Attached (name : String) (script : List Scripted) (s : Session) : Prop where
  connection : s.database name = .connected ⟨script, []⟩
  outside : ∀ h ∈ s.opened.head?, h.database ≠ name

/-- The session that reaches a database over a connection with answers that are laid down. -/
def answering (name : String) (script : List Scripted) (s : Session) : Session :=
  s.putDatabase name (.connected ⟨script, []⟩)

theorem attached_answering {z : Session} (outside : ∀ h ∈ z.opened.head?, h.database ≠ name)
    (script : List Scripted) : Attached name script (answering name script z) :=
  ⟨Session.database_of_lookup (Session.lookup_putDatabase ..), outside⟩

/-- A call over a connection is its exchange, inside a transaction if it writes. -/
theorem make_attached (t : Task) (hs : Attached name script s) :
    ∃ s₀ past, s₀.Reaches name script past ∧ s₀.supply = t.supply ∧
      ∀ r s₁ acts left, (Course.exchange name (t.program.refine perform)).run s₀ = some (r, s₁) →
        s₁.Reaches name left (past ++ acts) →
          ∃ s', (t.make name).run s = some (t.conclude r, s') ∧
            (s'.database name).trace = t.prologue ++ acts ++ t.epilogue r.isOk := by
  cases t with
  | command k =>
    have hconnection : Session.database name { s with supply := k.supply } =
        .connected ⟨script, List.reverse []⟩ := hs.connection
    obtain ⟨s₀, hs₀, hsupply, hcall⟩ :=
      Course.inTransaction_connected k.command.program hconnection hs.outside
    refine ⟨s₀, _, hs₀, hsupply, fun r s₁ acts left hrun hs₁ => ?_⟩
    obtain ⟨s', hwhole, htrace⟩ := hcall r s₁ acts left hrun hs₁
    obtain ⟨es, hcommand⟩ := command_concludes hwhole
    refine ⟨_, hcommand, ?_⟩
    show (s'.database name).trace = _
    simpa [prologue, epilogue, writes] using htrace
  | query q supply =>
    have hconnection : Session.database name { s with supply } = .connected ⟨script, []⟩ :=
      hs.connection
    have hput : Session.Reaches name script []
        (Session.putDatabase name (.connected ⟨script, []⟩) { s with supply }) :=
      Session.lookup_putDatabase ..
    refine ⟨_, _, hput, rfl, fun r s₁ acts left hrun hs₁ => ⟨s₁, ?_, ?_⟩⟩
    · have hview : (Course.committed name).run { s with supply } = some (⟨name, 0⟩,
          Session.putDatabase name (.connected ⟨script, []⟩) { s with supply }) := by
        simp only [Course.committed, StateT.run_bind, Course.database, StateT.run_modifyGet,
          Option.pure_def, Option.bind_eq_bind, Option.bind_some, hconnection]
        rfl
      have hbody := (Course.converse_connected q.program ⟨name, 0⟩ hput).trans hrun
      show (Course.query name q).run { s with supply } = _
      rw [Course.query, StateT.run_bind, hview]
      exact hbody
    · rw [Session.database_of_lookup hs₁]
      simp [Database.trace, prologue, epilogue, writes]

/-- The contents that a call leaves when it has written some things. -/
def settles (t : Task) (well : Bool) (ws : List Write) (d : Contents) : Contents :=
  if t.writes && !well then d else d.writeAll ws

theorem serves_prologue {t : Task} {acts : List Action} {script : List Scripted}
    {d after : Contents} :
    Serves d d (t.prologue ++ acts) script after ↔ Serves d d acts script after := by
  unfold prologue
  split <;> rfl

/-- The end of a transaction settles what becomes of its writes. -/
theorem serves_epilogue {t : Task} {well : Bool} {ws : List Write} {left : List Scripted}
    {d after : Contents} :
    Serves d (d.writeAll ws) (t.epilogue well) left after ↔ after = t.settles well ws d := by
  unfold epilogue settles
  cases t.writes <;> cases well <;> rfl

end Task

end ReviewRota
