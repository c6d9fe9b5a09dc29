import ReviewRota.Proofs.History
import ReviewRota.Proofs.Looking

/-!
# Calls one after the other

Commands and queries alike, each with what the surroundings hand out to it, made in a session at
rest. A command answers what its transaction comes to and leaves the tables that it commits; a
query leaves the tables as they are.
-/

namespace ReviewRota

/-- A call that is made next to others, with what the surroundings hand out to it. -/
inductive Task where
  | command (k : Call)
  | query (q : Query) (supply : Supply)

/-- The answer of a command when its transaction is over: its event needs to be there. -/
def Command.conclude (c : Command) : Except Failure c.Result → Except Failure c.Result
  | .ok r => (c.report r).map fun _ => r
  | .error f => .error f

namespace Task

@[reducible] def Result : Task → Type
  | command k => k.command.Result
  | query q _ => q.Result

def program : (t : Task) → Program t.Result
  | command k => k.command.program
  | query q _ => q.program

def supply : Task → Supply
  | command k => k.supply
  | query _ s => s

/-- The call runs in a transaction. -/
def writes : Task → Bool
  | command _ => true
  | query _ _ => false

/-- The answer of a call when its dialogue is over. -/
def conclude : (t : Task) → Except Failure t.Result → Except Failure t.Result
  | command k => k.command.conclude
  | query _ _ => id

/-- Make a call in a session, by itself. -/
def make (name : String) : (t : Task) → Course (Except Failure t.Result)
  | command k => k.make name
  | query q supply => do
    modify fun s => { s with supply }
    Course.query name q

/-- Make calls one after the other. -/
def makeAll (name : String) {ι : Type} (calls : ι → Task) :
    List ι → Course (List ((i : ι) × Except Failure (calls i).Result))
  | [] => return []
  | i :: is => do
    let r ← (calls i).make name
    return ⟨i, r⟩ :: (← makeAll name calls is)


/-- What the dialogue of a call comes to on tables. -/
def outcome (t : Task) (tables : Tables) : Except Failure t.Result :=
  (Program.on t.program ⟨tables, t.supply⟩).1

def answer (t : Task) (tables : Tables) : Except Failure t.Result := t.conclude (t.outcome tables)

/-- The tables that a call leaves. -/
def leaves (t : Task) (tables : Tables) : Tables :=
  if (t.outcome tables).isOk then (Program.on t.program ⟨tables, t.supply⟩).2.tables else tables

variable {ι : Type} {calls : ι → Task}

/-- The tables that calls leave one after the other. -/
def leaveAll (calls : ι → Task) (is : List ι) (tables : Tables) : Tables :=
  is.foldl (fun tables i => (calls i).leaves tables) tables

def answerAll (calls : ι → Task) :
    List ι → Tables → List ((i : ι) × Except Failure (calls i).Result)
  | [], _ => []
  | i :: is, tables => ⟨i, (calls i).answer tables⟩ :: answerAll calls is ((calls i).leaves tables)

@[simp] theorem leaveAll_concat (is : List ι) (i : ι) (tables : Tables) :
    leaveAll calls (is ++ [i]) tables = (calls i).leaves (leaveAll calls is tables) := by
  simp [leaveAll]

theorem answerAll_concat (is : List ι) (i : ι) (tables : Tables) :
    answerAll calls (is ++ [i]) tables =
      answerAll calls is tables ++ [⟨i, (calls i).answer (leaveAll calls is tables)⟩] := by
  induction is generalizing tables with
  | nil => rfl
  | cons j is ih =>
    rw [List.cons_append, answerAll, ih]
    rfl

@[simp] theorem map_fst_answerAll (is : List ι) (tables : Tables) :
    (answerAll calls is tables).map Sigma.fst = is := by
  induction is generalizing tables with
  | nil => rfl
  | cons i is ih => rw [answerAll, List.map_cons, ih]

/-- The answer of a call in a sequence is the one that it gives after the calls before it. -/
theorem mem_answerAll (past : List ι) (i : ι) (later : List ι) (tables : Tables) :
    ⟨i, (calls i).answer (leaveAll calls past tables)⟩ ∈
      answerAll calls (past ++ i :: later) tables := by
  induction past generalizing tables with
  | nil => exact List.mem_cons_self
  | cons j past ih => exact List.mem_cons_of_mem _ (ih _)

variable {name : String} {tables : Tables} {s s' : Session}

theorem supply_rests (hs : s.Rests name tables) (supply : Supply) :
    Session.Rests name tables { s with supply } :=
  ⟨hs.tables, hs.outside, hs.faultless⟩

/-- A command comes to the conclusion of what its transaction comes to. -/
theorem command_concludes {c : Command} {r : Except Failure c.Result}
    (h : (Course.inTransaction name Except.isOk fun h => Course.converse h c.program).run s =
      some (r, s')) :
    ∃ es, (Course.command name c).run s = some (c.conclude r, s'.heard es) := by
  simp only [Course.command, StateT.run_bind, h, Option.bind_eq_bind, Option.bind_some]
  cases r with
  | error f => exact ⟨[], by simp [Session.heard, Command.conclude]⟩
  | ok a =>
    cases hreport : c.report a with
    | error f => exact ⟨[], by simp [Session.heard, Command.conclude, hreport, Except.map]⟩
    | ok e =>
      refine ⟨[e], ?_⟩
      simp only [Command.conclude, hreport, Except.map]
      rfl

/-- A query leaves the tables as they are. -/
theorem query_keeps (hs : s.Rests name tables) (q : Query) :
    ∃ s', (Course.query name q).run s =
      some ((Program.on q.program ⟨tables, s.supply⟩).1, s') ∧ s'.Rests name tables := by
  obtain ⟨v, hv, hb, hn, rfl⟩ := hs.tables
  have hview : (Course.committed name).run s =
      some (⟨name, v.current⟩, s.putDatabase name (.memory v)) := by
    simp only [Course.committed, StateT.run_bind, Course.database, StateT.run_modifyGet,
      Option.pure_def, Option.bind_eq_bind, Option.bind_some, hv]
    rfl
  obtain ⟨es, hrun⟩ := Course.converse_looks q.looks_program (h := ⟨name, v.current⟩)
    (Session.lookup_putDatabase name (.memory v) s) hn hs.faultless
  have hdatabase : (s.putDatabase name (.memory v)).database name = .memory v := by
    rw [Session.database_putDatabase, if_pos rfl]
  refine ⟨(s.putDatabase name (.memory v)).heard es, ?_, ⟨v, hdatabase, hb, hn, rfl⟩, hs.outside,
    hs.faultless⟩
  rw [Course.query, StateT.run_bind, hview]
  exact hrun

/-- A call that is made by itself. -/
theorem make_rests (t : Task) (hs : s.Rests name tables) :
    ∃ s', (t.make name).run s = some (t.answer tables, s') ∧ s'.Rests name (t.leaves tables) := by
  cases t with
  | command k =>
    obtain ⟨s', hrun, hs'⟩ :=
      Course.inTransaction_rests (supply_rests hs k.supply) k.command.program
    obtain ⟨es, hcommand⟩ := command_concludes hrun
    exact ⟨_, hcommand, hs'.heard es⟩
  | query q supply =>
    obtain ⟨s', hrun, hs'⟩ := query_keeps (supply_rests hs supply) q
    obtain ⟨look, hlook⟩ := q.looks_program.exists_look
    have hleaves : (query q supply).leaves tables = tables := by
      simp only [leaves, program, hlook, ite_self]
    exact ⟨s', hrun, by rwa [hleaves]⟩

/-- A command whose transaction comes to this answer and these tables. -/
theorem command_of_on (hs : s.Rests name tables) {c : Command} {r : Except Failure c.Result}
    {w : World} (h : c.program.on ⟨tables, s.supply⟩ = (r, w)) :
    ∃ s', (Course.command name c).run s = some (c.conclude r, s') ∧
      s'.Rests name (if r.isOk then w.tables else tables) := by
  obtain ⟨s', hrun, hs'⟩ := (command ⟨c, s.supply⟩).make_rests hs
  have houtcome : (command ⟨c, s.supply⟩).outcome tables = r := congrArg Prod.fst h
  have hworld : (Program.on (command ⟨c, s.supply⟩).program ⟨tables, s.supply⟩).2.tables = w.tables :=
    congrArg (fun o => o.2.tables) h
  rw [answer, houtcome] at hrun
  unfold leaves at hs'
  rw [houtcome] at hs'
  exact ⟨s', hrun, hworld ▸ hs'⟩

theorem makeAll_rests (calls : ι → Task) (is : List ι) (hs : s.Rests name tables) :
    ∃ s', (makeAll name calls is).run s = some (answerAll calls is tables, s') ∧
      s'.Rests name (leaveAll calls is tables) := by
  induction is generalizing s tables with
  | nil => exact ⟨s, rfl, hs⟩
  | cons i is ih =>
    obtain ⟨s₁, hmake, hs₁⟩ := (calls i).make_rests hs
    obtain ⟨s₂, hrest, hs₂⟩ := ih hs₁
    refine ⟨s₂, ?_, hs₂⟩
    rw [makeAll, StateT.run_bind, hmake]
    show ((makeAll name calls is).run s₁).bind _ = _
    rw [hrest]
    rfl

end Task

end ReviewRota
