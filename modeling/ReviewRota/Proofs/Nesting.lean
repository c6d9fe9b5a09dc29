import ReviewRota.Proofs.Transactions

/-!
# Transactions inside one another

A session knows which transaction it is in, and nothing about those further out. So a transaction
joins the innermost open one if that is of the same database, and is a transaction of its own in
all other cases, even if one of the same database is open further out: over a connection it is then
a second one next to the first, and on tables in memory it waits for tables that stay busy as long
as it waits.
-/

namespace ReviewRota

namespace Session

/-- The databases of the open transactions, innermost first. -/
def stack (s : Session) : List String := s.opened.map Handle.database

/-- A transaction is under way on tables in memory exactly when one is open in this session. -/
def BusyWhereOpened (s : Session) : Prop :=
  ∀ name, ∃ v, s.database name = .memory v ∧ (v.busy = true ↔ name ∈ s.stack)

/-- All databases are reached over connections. -/
def Connects (s : Session) : Prop := ∀ name, ∃ c, s.database name = .connected c

variable {name : String} {s : Session}

theorem exists_of_stack (h : s.stack.head? = some name) :
    ∃ g rest, s.opened = g :: rest ∧ g.database = name := by
  rw [stack, List.head?_map, Option.map_eq_some_iff] at h
  obtain ⟨g, hg, hname⟩ := h
  obtain ⟨rest, hrest⟩ := List.head?_eq_some_iff.mp hg
  exact ⟨g, rest, hrest, hname⟩

theorem outside_of_stack (h : s.stack.head? ≠ some name) :
    ∀ g ∈ s.opened.head?, g.database ≠ name := by
  intro g hg hname
  apply h
  rw [stack, List.head?_map, Option.mem_def.mp hg, Option.map_some, hname]

@[simp] theorem stack_entered (name : String) (v : VersionedTables) (s : Session) :
    (s.entered name v).stack = name :: s.stack := rfl

theorem BusyWhereOpened.entered (hs : s.BusyWhereOpened) {v : VersionedTables} :
    (s.entered name v).BusyWhereOpened := by
  intro other
  have hother : (s.entered name v).database other =
      if other = name then .memory v.start.2 else s.database other :=
    database_putDatabase name other _ s
  rw [hother]
  by_cases h : other = name
  · rw [if_pos h]
    exact ⟨_, rfl, by simp [VersionedTables.start, h]⟩
  · rw [if_neg h]
    obtain ⟨v', hv', hbusy⟩ := hs other
    exact ⟨v', hv', by simp [hbusy, h]⟩

/-- The session inside a new transaction over a connection. -/
def begun (name : String) (c : Sql.Connection) (s : Session) : Session :=
  { s.putDatabase name (.connected ((c.note .acquire).note .begin)) with
    opened := ⟨name, 0⟩ :: s.opened }

@[simp] theorem stack_begun (name : String) (c : Sql.Connection) (s : Session) :
    (s.begun name c).stack = name :: s.stack := rfl

theorem database_begun (other : String) (c : Sql.Connection) :
    (s.begun name c).database other =
      if other = name then .connected ((c.note .acquire).note .begin) else s.database other :=
  database_putDatabase name other _ s

theorem Connects.begun (hs : s.Connects) (name : String) (c : Sql.Connection) :
    (s.begun name c).Connects := by
  intro other
  rw [database_begun]
  split
  · exact ⟨_, rfl⟩
  · exact hs other

/-- The session after a transaction over a connection, with the transactions open again that were
open before. -/
def released (name : String) (opened : List Handle) (well : Bool) (s : Session) : Session :=
  { s with opened }.putDatabase name ((s.database name).onConnection fun c =>
    (c.note (if well then .commit else .rollback)).note .release)

end Session

namespace Course

variable {β : Type} {name : String} {s : Session}

/-- Transactions inside one another, from the outermost on, around what is done innermost. -/
def nested (well : β → Bool) (body : Course β) : List String → Course β
  | [] => body
  | name :: names => inTransaction name well fun _ => nested well body names

/-- The transactions that are not joined, given the database of the innermost open one. -/
def openings : Option String → List String → List String
  | _, [] => []
  | innermost, name :: names =>
    if innermost = some name then openings innermost names else name :: openings (some name) names

example : openings none ["a", "a", "b", "a"] = ["a", "b", "a"] := by decide

/-- Tables that are busy never become free while somebody in the same session waits for them. -/
theorem newTransaction_busy {v : VersionedTables} (hv : s.database name = .memory v)
    (hb : v.busy = true) (well : β → Bool) (body : Handle → Course β) :
    (newTransaction name well body).run s = none := by
  simp only [newTransaction, StateT.run_bind, Course.database, StateT.run_modifyGet,
    Option.pure_def, Option.bind_eq_bind, Option.bind_some, hv, hb, if_true]
  rfl

theorem newTransaction_none {v : VersionedTables} {well : β → Bool} {body : Handle → Course β}
    (hv : s.database name = .memory v) (hb : v.busy = false)
    (hbody : (body ⟨name, v.start.1⟩).run (s.entered name v) = none) :
    (newTransaction name well body).run s = none := by
  simp only [newTransaction, StateT.run_bind, Course.database, StateT.run_modifyGet,
    Option.pure_def, Option.bind_eq_bind, Option.bind_some, hv, hb, if_neg Bool.false_ne_true,
    change, within, StateT.run_modify, StateT.run_get, StateT.run_pure,
    Session.putDatabase_putDatabase]
  have hin : ({ s.putDatabase name (.memory v.start.2) with
      opened := ⟨name, v.start.1⟩ ::
        (s.putDatabase name (.memory v.start.2)).opened } : Session) = s.entered name v := rfl
  rw [hin, hbody]
  rfl

/-- Over a connection a transaction of its own always begins. -/
theorem newTransaction_begins {c : Sql.Connection} {well : β → Bool} {body : Handle → Course β}
    {r : β} {s' : Session} (hc : s.database name = .connected c)
    (hbody : (body ⟨name, 0⟩).run (s.begun name c) = some (r, s')) :
    (newTransaction name well body).run s = some (r, s'.released name s.opened (well r)) := by
  simp only [newTransaction, StateT.run_bind, Course.database, StateT.run_modifyGet,
    Option.pure_def, Option.bind_eq_bind, Option.bind_some, hc, change, within, StateT.run_modify,
    StateT.run_get, StateT.run_pure]
  have hin : ({ Session.putDatabase name (Database.onConnection
        (fun c => (c.note .acquire).note .begin)
        (Session.database name (s.putDatabase name (.connected c))))
      (s.putDatabase name (.connected c)) with
      opened := ⟨name, 0⟩ :: s.opened } : Session) = s.begun name c := by
    rw [Session.database_putDatabase, if_pos rfl, Session.putDatabase_putDatabase]
    rfl
  have hopened : (Session.putDatabase name (Database.onConnection
      (fun c => (c.note .acquire).note .begin)
        (Session.database name (s.putDatabase name (.connected c))))
      (s.putDatabase name (.connected c))).opened = s.opened := rfl
  rw [hopened, hin, hbody]
  rfl

/-- The first of several transactions inside one another is joined. -/
theorem nested_joined {names : List String} (h : s.stack.head? = some name) (well : β → Bool)
    (body : Course β) :
    (nested well body (name :: names)).run s = (nested well body names).run s := by
  obtain ⟨g, rest, hrest, hname⟩ := Session.exists_of_stack h
  exact inTransaction_joined hrest hname well _

/-- The first of several transactions inside one another is one of its own. -/
theorem nested_alone {names : List String} (h : s.stack.head? ≠ some name) (well : β → Bool)
    (body : Course β) : (nested well body (name :: names)).run s =
      (newTransaction name well fun _ => nested well body names).run s :=
  inTransaction_alone (Session.outside_of_stack h) well _

theorem openings_joined {innermost : Option String} (h : innermost = some name)
    (names : List String) : openings innermost (name :: names) = openings innermost names := by
  rw [openings, if_pos h]

theorem openings_alone {innermost : Option String} (h : innermost ≠ some name)
    (names : List String) :
    openings innermost (name :: names) = name :: openings (some name) names := by
  rw [openings, if_neg h]

/-- On tables in memory nothing is waited for as long as no database comes back further in. -/
theorem nested_reaches (well : β → Bool) (body : Course β) (names : List String)
    (hs : s.BusyWhereOpened) (hn : (openings s.stack.head? names ++ s.stack).Nodup) :
    ∃ inner : Session, inner.stack = (openings s.stack.head? names).reverse ++ s.stack ∧
      ∀ r s', body.run inner = some (r, s') →
        ∃ s'', (nested well body names).run s = some (r, s'') := by
  induction names generalizing s with
  | nil => exact ⟨s, rfl, fun r s' h => ⟨s', h⟩⟩
  | cons name names ih =>
    by_cases h : s.stack.head? = some name
    · rw [openings_joined h] at hn ⊢
      obtain ⟨inner, hstack, hrun⟩ := ih hs hn
      refine ⟨inner, hstack, fun r s' hbody => ?_⟩
      rw [nested_joined h]
      exact hrun r s' hbody
    · rw [openings_alone h] at hn ⊢
      -- a database that is open further out would stand twice in the list
      have hnew : name ∉ s.stack := fun hm =>
        List.disjoint_of_nodup_append hn List.mem_cons_self hm
      obtain ⟨v, hv, hbusy⟩ := hs name
      have hb : v.busy = false := by
        rw [← Bool.not_eq_true]
        exact fun hb => hnew (hbusy.mp hb)
      have hn' : (openings (some name) names ++ name :: s.stack).Nodup :=
        List.perm_middle.nodup_iff.mpr hn
      obtain ⟨inner, hstack, hrun⟩ := ih (s := s.entered name v) hs.entered hn'
      refine ⟨inner, by simpa using hstack, fun r s' hbody => ?_⟩
      obtain ⟨s'', hs''⟩ := hrun r s' hbody
      rw [nested_alone h]
      exact ⟨_, newTransaction_eq hv hb hs''⟩

/-- On tables in memory a transaction of a database that is open further out waits for ever. -/
theorem nested_blocked (well : β → Bool) (body : Course β) (names : List String)
    (hs : s.BusyWhereOpened) (hstack : s.stack.Nodup)
    (hn : ¬ (openings s.stack.head? names ++ s.stack).Nodup) :
    (nested well body names).run s = none := by
  induction names generalizing s with
  | nil => exact absurd hstack hn
  | cons name names ih =>
    by_cases h : s.stack.head? = some name
    · rw [openings_joined h] at hn
      rw [nested_joined h]
      exact ih hs hstack hn
    · rw [openings_alone h] at hn
      rw [nested_alone h]
      obtain ⟨v, hv, hbusy⟩ := hs name
      by_cases hm : name ∈ s.stack
      -- the lock is with this session itself
      · exact newTransaction_busy hv (hbusy.mpr hm) well _
      · have hb : v.busy = false := by
          rw [← Bool.not_eq_true]
          exact fun hb => hm (hbusy.mp hb)
        have hn' : ¬ (openings (some name) names ++ name :: s.stack).Nodup := fun hd =>
          hn (List.perm_middle.nodup_iff.mp hd)
        exact newTransaction_none hv hb
          (ih (s := s.entered name v) hs.entered (List.nodup_cons.mpr ⟨hm, hstack⟩) hn')

/-- Over connections every opening acquires a connection and begins a transaction on it. -/
theorem nested_begins (well : β → Bool) (body : Course β) (names : List String)
    (hs : s.Connects) :
    ∃ inner : Session, inner.stack = (openings s.stack.head? names).reverse ++ s.stack ∧
      (∀ name, (inner.database name).trace = (s.database name).trace ++
        (List.replicate ((openings s.stack.head? names).count name)
          [Sql.Action.acquire, Sql.Action.begin]).flatten) ∧
      ∀ r s', body.run inner = some (r, s') →
        ∃ s'', (nested well body names).run s = some (r, s'') := by
  induction names generalizing s with
  | nil => exact ⟨s, rfl, by simp [openings], fun r s' h => ⟨s', h⟩⟩
  | cons name names ih =>
    by_cases h : s.stack.head? = some name
    · rw [openings_joined h]
      obtain ⟨inner, hstack, htrace, hrun⟩ := ih hs
      refine ⟨inner, hstack, htrace, fun r s' hbody => ?_⟩
      rw [nested_joined h]
      exact hrun r s' hbody
    · rw [openings_alone h]
      obtain ⟨c, hc⟩ := hs name
      obtain ⟨inner, hstack, htrace, hrun⟩ := ih (hs.begun name c)
      refine ⟨inner, by simpa using hstack, fun other => ?_, fun r s' hbody => ?_⟩
      · rw [htrace other, Session.database_begun, List.count_cons]
        by_cases ho : other = name
        · subst ho
          simp [hc, Database.trace, Sql.Connection.note, List.replicate_succ]
        · have hne : name ≠ other := fun he => ho he.symm
          simp [ho, hne]
      · obtain ⟨s'', hs''⟩ := hrun r s' hbody
        rw [nested_alone h]
        have hbody : ((fun _ => nested well body names) (Handle.mk name 0)).run
            (s.begun name c) = _ := hs''
        exact ⟨_, newTransaction_begins hc hbody⟩

/-- **A transaction joins the innermost open one, and no other.** The first part is about every
state of a session: a transaction of the innermost open one opens nothing and works on its version.
The other parts are about all ways to put transactions inside one another. Those that stand
directly inside one of their own database are joined, and the rest are opened. On tables in memory
this goes well if no database is opened twice, and never comes to an end otherwise; over
connections a database that is opened twice has two transactions at once. -/
theorem transactions_join (well : β → Bool) :
    (∀ (s : Session) (h : Handle) (rest : List Handle) (body : Handle → Course β),
      s.opened = h :: rest → (inTransaction h.database well body).run s = (body h).run s) ∧
    (∀ (s : Session) (names : List String) (body : Course β),
      s.BusyWhereOpened → s.opened = [] →
        ((openings none names).Nodup → ∃ inner : Session,
          inner.stack = (openings none names).reverse ∧
          ∀ r s', body.run inner = some (r, s') →
            ∃ s'', (nested well body names).run s = some (r, s'')) ∧
        (¬ (openings none names).Nodup → (nested well body names).run s = none)) ∧
    (∀ (s : Session) (names : List String) (body : Course β),
      s.Connects → s.opened = [] → ∃ inner : Session,
        inner.stack = (openings none names).reverse ∧
        (∀ name, (inner.database name).trace = (s.database name).trace ++
          (List.replicate ((openings none names).count name)
            [Sql.Action.acquire, Sql.Action.begin]).flatten) ∧
        ∀ r s', body.run inner = some (r, s') →
          ∃ s'', (nested well body names).run s = some (r, s'')) := by
  have hempty : ∀ {s : Session}, s.opened = [] → s.stack = [] := by
    intro s ho
    rw [Session.stack, ho, List.map_nil]
  refine ⟨?_, ?_, ?_⟩
  · intro s h rest body ho
    exact inTransaction_joined ho rfl well body
  · intro s names body hs ho
    have hreaches := nested_reaches well body names hs
    have hblocked := nested_blocked well body names hs
    rw [hempty ho, List.head?_nil, List.append_nil, List.append_nil] at hreaches
    rw [hempty ho, List.head?_nil, List.append_nil] at hblocked
    exact ⟨hreaches, hblocked List.nodup_nil⟩
  · intro s names body hs ho
    have hbegins := nested_begins well body names hs
    rw [hempty ho, List.head?_nil, List.append_nil] at hbegins
    exact hbegins

/-- A transaction around one of another database around one of its own database. -/
theorem transactions_join_around_another :
    (nested (fun _ => true) (return ()) ["a", "b", "a"] : Course Unit).run
        { inMemory := true, supply := default } = none ∧
      ∃ inner : Session, inner.stack = ["a", "b", "a"] ∧
        (inner.database "a").trace = [.acquire, .begin, .acquire, .begin] ∧
        (inner.database "b").trace = [.acquire, .begin] := by
  obtain ⟨-, hmemory, hconnected⟩ := transactions_join (β := Unit) fun _ => true
  constructor
  · have hfree : Session.BusyWhereOpened { inMemory := true, supply := default } := by
      intro name
      exact ⟨{}, rfl, by simp [Session.stack]⟩
    exact (hmemory _ ["a", "b", "a"] (return ()) hfree rfl).2 (by decide)
  · have hconnects : Session.Connects { inMemory := false, supply := default } :=
      fun _ => ⟨{}, rfl⟩
    obtain ⟨inner, hstack, htrace, -⟩ :=
      hconnected _ ["a", "b", "a"] (return ()) hconnects rfl
    exact ⟨inner, hstack, htrace "a", htrace "b"⟩

end Course

end ReviewRota
