import ReviewRota.Proofs.Backends
import ReviewRota.Proofs.Footprint

/-!
# Calls that contend for rows

Merges and replacements at work on one database, each in a transaction of its own, with a scheduler
that lets one of them send a statement at a time. A statement sees what is committed and what its own
transaction has written. A selection that locks its rows waits until no other open transaction holds
one of them; a row stays held until the transaction is over. Nothing else waits.

The order in which calls are given a row is kept with the state. The invariant is that the calls that
are over could have been made one after the other, and that whatever an open transaction has done so
far it could do again, alone, on what is committed by now: before it is given its pull request it
has done nothing, and afterwards nobody else can write what it sees.
-/

namespace ReviewRota

open Sql

/-- A row of a database: its table and its key. -/
structure Sql.RowKey where
  table : String
  key : List Datum

/-- The row of a pull request. -/
def Sql.RowKey.pullRequest (p : Identifier) : RowKey := ⟨Schema.pullRequests.name, [.id p]⟩

/-- The rows that a statement locks: a selection for update locks those that it selects. -/
def Sql.Statement.Locks (d : Contents) : Statement → RowKey → Prop
  | .select t _ conditions _ _ _ true, k =>
    ∃ r, d t.name r ∧ (∀ c ∈ conditions, c.Holds r) ∧ k = ⟨t.name, t.key r⟩
  | _, _ => False

/-- The rows that an exchange needs to lock for its next step. -/
def Sql.Exchange.Progress.Asks {α : Type} (d : Contents) (P : Exchange.Progress α) (k : RowKey) :
    Prop :=
  match P.rest with
  | .ask (.send _ st) _ => st.Locks (d.writeAll P.writes) k
  | _ => False

/-- What becomes of the writes of a transaction: all of them are committed, or none. -/
def Sql.kept {α : Type} (r : Except Failure α) (ws : List Write) : List Write :=
  if r.isOk then ws else []

/-- The exchange of a call at its start. -/
def Call.started (k : Call) : Exchange.Progress k.command.Result :=
  ⟨k.command.program.refine perform, k.supply, []⟩

/-- A command that changes a stored pull request or its reviewers. -/
def Command.Handles (p : Identifier) : Command → Prop
  | .merge id | .reassign id _ _ => id = p
  | _ => False

/-! ## States and steps -/

/-- A call that is over: its answer, and what its transaction has committed. -/
structure Entry {ι : Type} (calls : ι → Call) where
  call : ι
  answer : Except Failure (calls call).command.Result
  writes : List Write

/-- Calls that change something, as calls that may also read. -/
abbrev Call.tasks {ι : Type} (calls : ι → Call) : ι → Task := fun i => .command (calls i)

/-- A call with its answer. -/
def Entry.answered {ι : Type} {calls : ι → Call} (e : Entry calls) :
    (i : ι) × Except Failure (Call.tasks calls i).Result := ⟨e.call, e.answer⟩

inductive Contention.Stage (α : Type) where
  | working (P : Exchange.Progress α)
  | returned

/-- Calls at work on a database. -/
structure Contention {ι : Type} (calls : ι → Call) where
  /-- What is committed. -/
  contents : Contents
  stage : (i : ι) → Contention.Stage (calls i).command.Result
  /-- The calls that were given a row, in this order. -/
  granted : RowKey → List ι
  /-- The calls that are over, in the order of their ends. -/
  finished : List (Entry calls)

namespace Contention

variable {ι : Type} {calls : ι → Call}

/-- No call has sent anything yet. -/
def opening (calls : ι → Call) (d : Contents) : Contention calls :=
  ⟨d, fun i => .working (calls i).started, fun _ => [], []⟩

/-- The calls that are over, in the order of their ends. -/
def order (s : Contention calls) : List ι := s.finished.map Entry.call

/-- No transaction but that of the call itself holds a row. -/
def FreeFor (i : ι) (k : RowKey) (s : Contention calls) : Prop :=
  ∀ j ∈ s.granted k, j = i ∨ s.stage j = .returned

variable [DecidableEq ι]

open Classical in
/-- A call has gone one step further and is given the rows that it asked for. -/
noncomputable def moved (i : ι) (P P' : Exchange.Progress (calls i).command.Result)
    (s : Contention calls) : Contention calls :=
  { s with
    stage := Function.update s.stage i (.working P')
    granted := fun k =>
      if P.Asks s.contents k ∧ i ∉ s.granted k then s.granted k ++ [i] else s.granted k }

/-- A transaction is over, and its call answers. -/
def left (i : ι) (r : Except Failure (calls i).command.Result) (ws : List Write)
    (s : Contention calls) : Contention calls :=
  { s with
    contents := s.contents.writeAll (kept r ws)
    stage := Function.update s.stage i .returned
    finished := s.finished ++ [⟨i, (calls i).command.conclude r, kept r ws⟩] }

/-- What a call can do when the scheduler lets it go on. -/
inductive Step (i : ι) (s : Contention calls) : Contention calls → Prop where
  | advance {P P' : Exchange.Progress (calls i).command.Result} (at_work : s.stage i = .working P)
      (free : ∀ k, P.Asks s.contents k → s.FreeFor i k)
      (advances : Exchange.Advances s.contents P P') : Step i s (s.moved i P P')
  | finish {r : Except Failure (calls i).command.Result} {supply : Supply} {ws : List Write}
      (at_end : s.stage i = .working (.ended r supply ws)) : Step i s (s.left i r ws)

/-- The scheduler can bring the calls from one state to another. -/
def Leads : Contention calls → Contention calls → Prop :=
  Relation.ReflTransGen fun s s' => ∃ i, Step i s s'

section States

variable {i j : ι} {k : RowKey} {s s' : Contention calls}
  {P P' : Exchange.Progress (calls i).command.Result}
  {r : Except Failure (calls i).command.Result} {ws : List Write}

@[simp] theorem stage_moved_self : (s.moved i P P').stage i = .working P' := by
  simp [moved]

@[simp] theorem stage_moved_of_ne (h : j ≠ i) : (s.moved i P P').stage j = s.stage j := by
  simp [moved, h]

@[simp] theorem order_moved : (s.moved i P P').order = s.order := rfl

@[simp] theorem stage_left_self : (s.left i r ws).stage i = .returned := by
  simp [left]

@[simp] theorem stage_left_of_ne (h : j ≠ i) : (s.left i r ws).stage j = s.stage j := by
  simp [left, h]

@[simp] theorem granted_left : (s.left i r ws).granted = s.granted := rfl

@[simp] theorem order_left : (s.left i r ws).order = s.order ++ [i] := by
  simp [left, order]

theorem granted_moved_of_asked (hasks : P.Asks s.contents k) (hnew : i ∉ s.granted k) :
    (s.moved i P P').granted k = s.granted k ++ [i] :=
  if_pos ⟨hasks, hnew⟩

theorem granted_moved_of_not (h : ¬ (P.Asks s.contents k ∧ i ∉ s.granted k)) :
    (s.moved i P P').granted k = s.granted k :=
  if_neg h

/-- The calls that are given a row by a step. -/
theorem mem_granted_moved :
    j ∈ (s.moved i P P').granted k ↔ j ∈ s.granted k ∨ (j = i ∧ P.Asks s.contents k) := by
  by_cases h : P.Asks s.contents k ∧ i ∉ s.granted k
  · rw [granted_moved_of_asked h.1 h.2, List.mem_append, List.mem_singleton]
    exact or_congr_right (and_iff_left h.1).symm
  · rw [granted_moved_of_not h]
    refine ⟨Or.inl, ?_⟩
    rintro (hj | ⟨rfl, hasks⟩)
    · exact hj
    · by_contra hnew
      exact h ⟨hasks, hnew⟩

/-- A step is the step of one call only. -/
theorem Step.stage_of_ne (hs : Step i s s') (h : j ≠ i) : s'.stage j = s.stage j := by
  cases hs with
  | advance => exact stage_moved_of_ne h
  | finish => exact stage_left_of_ne h

/-- A call that is over does nothing more. -/
theorem Step.ne_of_returned (hs : Step i s s') (h : s.stage j = .returned) : j ≠ i := by
  rintro rfl
  cases hs with
  | advance at_work => cases at_work.symm.trans h
  | finish at_end => cases at_end.symm.trans h

theorem Leads.returned (hs : s.Leads s') (h : s.stage i = .returned) : s'.stage i = .returned := by
  induction hs with
  | refl => exact h
  | tail _ hstep ih =>
    obtain ⟨j, hj⟩ := hstep
    rw [hj.stage_of_ne (hj.ne_of_returned ih), ih]

end States

end Contention

/-! ## One after the other -/

/-- Calls made one after the other, each alone from its start to its end: their entries, and what is
committed in the end. -/
inductive Serial {ι : Type} (calls : ι → Call) (d : Contents) :
    List (Entry calls) → Contents → Prop where
  | nil : Serial calls d [] d
  | snoc {es : List (Entry calls)} {d' : Contents} {i : ι}
      {r : Except Failure (calls i).command.Result} {supply : Supply} {ws : List Write}
      (past : Serial calls d es d')
      (alone : Exchange.Reaches d' (calls i).started (.ended r supply ws)) :
      Serial calls d (es ++ [⟨i, (calls i).command.conclude r, kept r ws⟩])
        (d'.writeAll (kept r ws))

section Handling

variable {k : Call} {p : Identifier} {t : Tables} {d : Contents}

theorem Call.fair (handles : k.command.Handles p) (t : Tables) : (Task.command k).Fair t := by
  intro draft hdraft
  rw [hdraft] at handles
  exact handles.elim

theorem Call.proper (handles : k.command.Handles p) (t : Tables) : k.Proper t := by
  obtain ⟨c, supply⟩ := k
  cases c with
  | merge | reassign => trivial
  | _ => exact handles.elim

/-- What a call leaves is what was there or a change of it. -/
theorem Call.leaves_eq_or_change (handles : k.command.Handles p) (hi : t.Integrity) :
    (Task.command k).leaves t = t ∨ Tables.Change k.reading t ((Task.command k).leaves t) := by
  unfold Task.leaves
  split
  · exact Call.after_eq_or_change hi (Call.proper handles t)
  · exact Or.inl rfl

/-- A call keeps to the pull request that it handles. -/
theorem Call.confined_started (handles : k.command.Handles p) : k.started.Confined p := by
  refine ⟨?_, fun w hw => absurd hw List.not_mem_nil⟩
  obtain ⟨c, supply⟩ := k
  cases c with
  | merge id =>
    obtain rfl := handles
    exact (Program.about_merge id).confined
  | reassign id old draws =>
    obtain rfl := handles
    exact (Program.about_reassign id old draws).confined
  | _ => exact handles.elim

/-- The first thing that a call does is to select the pull request for update. -/
theorem Call.exists_started (handles : k.command.Handles p) : ∃ next, k.started.rest =
    .ask (.send .one (selectOne Schema.pullRequests [.equals Schema.id (.id p)] true)) next := by
  obtain ⟨c, supply⟩ := k
  cases c with
  | merge id =>
    obtain rfl := handles
    exact ⟨_, rfl⟩
  | reassign id old draws =>
    obtain rfl := handles
    exact ⟨_, rfl⟩
  | _ => exact handles.elim

theorem Call.started_ne_ended (handles : k.command.Handles p)
    {r : Except Failure k.command.Result} {supply : Supply} {ws : List Write} :
    .ended r supply ws ≠ k.started := by
  obtain ⟨next, hnext⟩ := exists_started handles
  intro h
  rw [← h] at hnext
  cases r <;> cases hnext

/-- At its start a call asks for the row of its pull request. -/
theorem Call.asks_started (handles : k.command.Handles p) (held : d.Holds t) {pr : PullRequest}
    (hp : t.pullRequests.find? p = some pr) : k.started.Asks d (.pullRequest p) := by
  obtain ⟨next, hnext⟩ := exists_started handles
  obtain ⟨r, hr, hid⟩ := held.exists_pullRequest hp
  unfold Exchange.Progress.Asks
  rw [hnext]
  refine ⟨r, hr, List.forall_mem_singleton.mpr hid, ?_⟩
  rw [RowKey.pullRequest, ← hid]
  rfl

/-- A confined exchange asks for no other row than that of its pull request. -/
theorem Sql.Exchange.Progress.Confined.eq_of_asks {α : Type} {P : Exchange.Progress α}
    (h : P.Confined p) {row : RowKey} (hasks : P.Asks d row) : row = .pullRequest p := by
  obtain ⟨rest, supply, ws⟩ := P
  obtain ⟨hrest, -⟩ := h
  unfold Exchange.Progress.Asks at hasks
  split at hasks
  · rename_i mode st next hsend
    obtain rfl : rest = _ := hsend
    cases st with
    | select tb cs conditions order limit offset lock =>
      cases lock with
      | false => exact hasks.elim
      | true =>
        obtain ⟨r, -, hr, rfl⟩ := hasks
        obtain ⟨⟨hkeeps, hlock⟩, -⟩ := hrest
        obtain rfl := hlock rfl
        have hid : some (r.value Schema.id.name) = some (.id p) :=
          hkeeps r hr Schema.pullRequests (.head _) rfl
        exact congrArg (fun v => RowKey.mk Schema.pullRequests.name [v]) (Option.some.inj hid)
    | _ => exact hasks.elim
  · exact hasks.elim

end Handling

end ReviewRota
