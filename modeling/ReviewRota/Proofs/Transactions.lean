import ReviewRota.Proofs.Programs
import ReviewRota.Session.Transaction

/-!
# Transactions on tables in memory

How a session that runs without faults carries a call out. Its requests all go to one version of
the tables, so the whole call is `Program.run` on that version, and the session around it only
takes over the tables, the supply and the events. A command of its own works on a copy of what is
committed, which replaces it when the command goes well; a command inside a transaction works on
the version of that transaction, for better or for worse.
-/

namespace ReviewRota

namespace VersionedTables

theorem write_version {n : Nat} {v : VersionedTables} (h : n < v.versions.length) :
    v.write n (v.version n) = v := by
  have hget : v.version n = v.versions[n] := by simp [version, h]
  unfold write
  rw [hget, List.set_getElem_self]

theorem write_write (n : Nat) (t t' : Tables) (v : VersionedTables) :
    (v.write n t').write n t = v.write n t := by
  simp [write]

@[simp] theorem length_write (n : Nat) (t : Tables) (v : VersionedTables) :
    (v.write n t).versions.length = v.versions.length := by
  simp [write]

theorem lt_length_start (v : VersionedTables) : v.start.1 < v.start.2.versions.length := by
  simp [start]

/-- The tables after a transaction that worked on a copy of the committed ones. -/
def settled (t : Tables) (well : Bool) (v : VersionedTables) : VersionedTables :=
  (v.start.2.write v.start.1 t).finish v.start.1 well

theorem current_settled_lt {v : VersionedTables} (h : v.current < v.versions.length)
    (t : Tables) (well : Bool) :
    (v.settled t well).current < (v.settled t well).versions.length := by
  have hlength : (v.settled t well).versions.length = v.versions.length + 1 := by
    simp [settled, finish, write, start]
  rw [hlength]
  cases well with
  | true => exact Nat.lt_succ_self _
  | false => exact Nat.lt_succ_of_lt h

/-- What is committed changes only if the transaction went well. -/
theorem committed_settled {v : VersionedTables} (h : v.current < v.versions.length)
    (t : Tables) (well : Bool) :
    (v.settled t well).committed = if well then t else v.committed := by
  cases well with
  | true => exact version_write_self _ v.lt_length_start t
  | false =>
    -- the version that was worked on lies behind all others, so it is not the committed one
    have hne : v.start.1 ≠ v.current := by
      simp only [start]
      omega
    show ((v.start.2.write v.start.1 t).version v.current) = v.committed
    rw [version_write_of_ne hne]
    simp [start, version, committed, List.getElem?_append_left h]

end VersionedTables

namespace Session

theorem putIn_of_lookup {name : String} {d : Database} {ds : List (String × Database)}
    (h : ds.lookup name = some d) : putIn name d ds = ds := by
  induction ds with
  | nil => cases h
  | cons e es ih =>
    obtain ⟨key, old⟩ := e
    rw [List.lookup_cons] at h
    by_cases hk : key = name
    · subst hk
      simp only [beq_self_eq_true, Option.some.injEq] at h
      rw [putIn, if_pos rfl, h]
    · have hne : (name == key) = false := by
        apply beq_false_of_ne
        intro he
        exact hk he.symm
      rw [hne] at h
      rw [putIn, if_neg hk, ih h]

theorem putIn_putIn (name : String) (d d' : Database) (ds : List (String × Database)) :
    putIn name d (putIn name d' ds) = putIn name d ds := by
  induction ds with
  | nil => simp [putIn]
  | cons e es ih =>
    obtain ⟨key, old⟩ := e
    by_cases hk : key = name
    · rw [putIn, if_pos hk, putIn, if_pos hk, putIn, if_pos hk]
    · rw [putIn, if_neg hk, putIn, if_neg hk, putIn, if_neg hk, ih]

theorem putDatabase_of_lookup {name : String} {d : Database} {s : Session}
    (h : s.databases.lookup name = some d) : s.putDatabase name d = s := by
  rw [putDatabase, putIn_of_lookup h]

theorem putDatabase_putDatabase (name : String) (d d' : Database) (s : Session) :
    (s.putDatabase name d').putDatabase name d = s.putDatabase name d := by
  simp only [putDatabase, putIn_putIn]

@[simp] theorem lookup_putDatabase (name : String) (d : Database) (s : Session) :
    (s.putDatabase name d).databases.lookup name = some d := by
  rw [putDatabase, lookup_putIn, if_pos rfl]

theorem database_of_lookup {name : String} {d : Database} {s : Session}
    (h : s.databases.lookup name = some d) : s.database name = d := by
  rw [database, h, Option.getD_some]

/-- The session after a call has worked on a version of tables in memory. -/
def worked (h : Handle) (v : VersionedTables) (a : Account) (s : Session) : Session :=
  { s with supply := a.world.supply, events := a.events }.putDatabase h.database
    (.memory (v.write h.version a.world.tables))

theorem lookup_worked (h : Handle) (v : VersionedTables) (a : Account) (s : Session) :
    (s.worked h v a).databases.lookup h.database =
      some (.memory (v.write h.version a.world.tables)) :=
  lookup_putDatabase _ _ _

/-- A call that leaves its version as it was leaves nothing but events. -/
theorem worked_same {h : Handle} {v : VersionedTables} {s : Session}
    (hv : s.databases.lookup h.database = some (.memory v)) (hn : h.version < v.versions.length)
    (es : List Event) :
    s.worked h v ⟨⟨v.version h.version, s.supply⟩, es⟩ = { s with events := es } := by
  rw [worked, VersionedTables.write_version hn]
  exact putDatabase_of_lookup hv

theorem worked_worked (h : Handle) (v : VersionedTables) (a b : Account) (s : Session) :
    (s.worked h v a).worked h (v.write h.version a.world.tables) b = s.worked h v b := by
  simp only [worked, VersionedTables.write_write]
  exact putDatabase_putDatabase h.database _ _
    { s with supply := b.world.supply, events := b.events }

/-- The session inside a new transaction on tables in memory. -/
def entered (name : String) (v : VersionedTables) (s : Session) : Session :=
  { s.putDatabase name (.memory v.start.2) with
    opened := ⟨name, v.start.1⟩ :: s.opened }

/-- The session after a transaction that worked on a version, with the transactions open again that
were open before. -/
def left (name : String) (opened : List Handle) (n : Nat) (well : Bool) (s : Session) :
    Session :=
  { s with opened }.putDatabase name
    ((s.database name).onTables (VersionedTables.finish n well))

section Entered

variable (name : String) (v : VersionedTables) (s : Session)

@[simp] theorem supply_entered : (s.entered name v).supply = s.supply := rfl

@[simp] theorem events_entered : (s.entered name v).events = s.events := rfl

/-- The database after a transaction of its own. -/
theorem database_left_worked (opened : List Handle) (a : Account) (well : Bool) :
    Session.database name
      (((s.entered name v).worked ⟨name, v.start.1⟩ v.start.2 a).left name opened v.start.1 well) =
        .memory (v.settled a.world.tables well) := by
  have hlookup := lookup_worked ⟨name, v.start.1⟩ v.start.2 a (s.entered name v)
  have hin := database_of_lookup hlookup
  unfold left
  rw [database_putDatabase, if_pos rfl, hin]
  rfl

end Entered

/-- The session after further events. -/
def heard (es : List Event) (s : Session) : Session := { s with events := s.events ++ es }

end Session

namespace Course

variable {α : Type} {h : Handle} {v : VersionedTables} {s : Session}

theorem run_bind_eq_some {β : Type} {x : Course α} {k : α → Course β} {s' : Session} {b : β} :
    (x >>= k).run s = some (b, s') ↔
      ∃ a s₁, x.run s = some (a, s₁) ∧ (k a).run s₁ = some (b, s') := by
  rw [StateT.run_bind]
  simp [Option.bind_eq_some_iff]

theorem database_eq {name : String} {d : Database} (hd : s.databases.lookup name = some d) :
    (database name).run s = some (d, s) := by
  show some (s.database name, s.putDatabase name (s.database name)) = _
  rw [Session.database_of_lookup hd, Session.putDatabase_of_lookup hd]

/-- A request is carried out on its version. -/
theorem ask_eq (hv : s.databases.lookup h.database = some (.memory v)) (hf : s.faults = [])
    (q : StoreCall) : (ask h q).run s =
      some ((q.run ⟨v.version h.version, s.supply⟩).1,
        s.worked h v ⟨(q.run ⟨v.version h.version, s.supply⟩).2, s.events⟩) := by
  rw [ask, StateT.run_bind, database_eq hv]
  show (askTables h v q).run s = _
  simp only [askTables, enter, StateT.run_bind, StateT.run_modifyGet, hf, Fault.enterAll_nil]
  have hs : { s with faults := [] } = s := by
    cases s
    subst hf
    rfl
  rw [hs]
  rfl

/-- **A call held with one version of the tables is the call on tables alone.** -/
theorem converse_eq (p : Program α) (hv : s.databases.lookup h.database = some (.memory v))
    (hn : h.version < v.versions.length) (hf : s.faults = []) : (converse h p).run s =
      some ((p.run ⟨⟨v.version h.version, s.supply⟩, s.events⟩).1,
        s.worked h v (p.run ⟨⟨v.version h.version, s.supply⟩, s.events⟩).2) := by
  induction p generalizing s v with
  | done a =>
    have hsame := Session.worked_same hv hn s.events
    show some (Except.ok a, s) = some (Except.ok a, s.worked h v ⟨_, s.events⟩)
    rw [hsame]
  | fail f =>
    have hsame := Session.worked_same hv hn s.events
    show some (Except.error f, s) = some (Except.error f, s.worked h v ⟨_, s.events⟩)
    rw [hsame]
  | note e rest ih =>
    exact ih (s := { s with events := s.events ++ [e] }) hv hn hf
  | ask q next ih =>
    -- the rest of the call starts in the session that the request left, with the version that
    -- the request wrote; the two writes add up to one
    have hwritten := Session.lookup_worked h v
      ⟨(q.run ⟨v.version h.version, s.supply⟩).2, s.events⟩ s
    have hn' : h.version < (v.write h.version
        (q.run ⟨v.version h.version, s.supply⟩).2.tables).versions.length := by
      rwa [VersionedTables.length_write]
    rw [converse, Dialogue.hold, StateT.run_bind, ask_eq hv hf]
    refine (ih _ hwritten hn' hf).trans ?_
    rw [VersionedTables.version_write_self v hn, Session.worked_worked]
    rfl

/-! ## Transactions -/

/-- A transaction of the innermost open one is no transaction of its own. -/
theorem inTransaction_joined {β : Type} {name : String} {rest : List Handle}
    (ho : s.opened = h :: rest) (hn : h.database = name) (well : β → Bool)
    (body : Handle → Course β) : (inTransaction name well body).run s = (body h).run s := by
  simp only [inTransaction, StateT.run_bind, StateT.run_get, Option.pure_def, Option.bind_eq_bind,
    Option.bind_some, ho, if_pos hn]

theorem inTransaction_alone {β : Type} {name : String}
    (ho : ∀ h ∈ s.opened.head?, h.database ≠ name) (well : β → Bool) (body : Handle → Course β) :
    (inTransaction name well body).run s = (newTransaction name well body).run s := by
  simp only [inTransaction, StateT.run_bind, StateT.run_get, Option.pure_def, Option.bind_eq_bind,
    Option.bind_some]
  cases hs : s.opened with
  | nil => rfl
  | cons g rest =>
    have hne : g.database ≠ name := by
      apply ho g
      rw [hs, List.head?_cons]
      rfl
    exact congrArg (StateT.run · s) (if_neg hne)

/-- **A transaction of its own works on a copy of the committed tables.** -/
theorem newTransaction_eq {β : Type} {name : String} {well : β → Bool}
    {body : Handle → Course β} {r : β} {s' : Session}
    (hv : s.database name = .memory v) (hb : v.busy = false)
    (hbody : (body ⟨name, v.start.1⟩).run (s.entered name v) = some (r, s')) :
    (newTransaction name well body).run s =
      some (r, s'.left name s.opened v.start.1 (well r)) := by
  simp only [newTransaction, StateT.run_bind, Course.database, StateT.run_modifyGet,
    Option.pure_def, Option.bind_eq_bind, Option.bind_some, hv, hb, if_neg Bool.false_ne_true,
    change, within, StateT.run_modify, StateT.run_get, StateT.run_pure,
    Session.putDatabase_putDatabase]
  have hin : ({ s.putDatabase name (.memory v.start.2) with
      opened := ⟨name, v.start.1⟩ ::
        (s.putDatabase name (.memory v.start.2)).opened } : Session) = s.entered name v := rfl
  rw [hin, hbody]
  rfl

end Course

end ReviewRota
