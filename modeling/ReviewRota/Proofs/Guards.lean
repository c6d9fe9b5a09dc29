import ReviewRota.Proofs.Logs

/-!
# Guarded writes

What the commands send over a connection, whatever it answers. All of it stands in one transaction,
and nothing is sent after a failure. A merge and a reassignment lock the row of the pull request
first, and they write only if that row is there and open; a reassignment writes only about a reviewer
who is listed, and about a successor who is eligible by the rows that were returned.
-/

namespace ReviewRota

open Sql

namespace Sql

/-! ## Statements -/

namespace Statement

/-- A statement that changes rows. -/
def writes : Statement → Bool
  | select .. => false
  | insert .. | update .. | delete .. => true

/-- The selection that locks the row of a pull request. -/
def lock (id : Identifier) : Statement :=
  selectOne Schema.pullRequests [.equals Schema.id (.id id)] true

/-- The update that merges a pull request, as long as it is open. -/
def closing (id : Identifier) (now : Instant) : Statement :=
  .update Schema.pullRequests
    (changes Schema.pullRequests [(Schema.status, .status .merged), (Schema.mergedAt, .instant now)])
    [.equals Schema.id (.id id), .equals Schema.status (.status .opened)] true

/-- The selection of the reviewers of a pull request. -/
def listing (p : Identifier) : Statement :=
  .select Schema.reviewers [Schema.userId] [.equals Schema.pullRequestId (.id p)] [] none none false

def rowOfUser (id : Identifier) : Statement := selectOne Schema.users [.equals Schema.id (.id id)] false

def rowsOfTeam (id : Identifier) : Statement :=
  selectRows Schema.users [.equals Schema.teamId (.id id)] [⟨Schema.username, false⟩]

def unassignment (p u : Identifier) : Statement :=
  .delete Schema.reviewers [.equals Schema.pullRequestId (.id p), .equals Schema.userId (.id u)]

def assignment (p u : Identifier) : Statement :=
  .insert Schema.reviewers [(Schema.pullRequestId, .id p), (Schema.userId, .id u)] false

end Statement

/-- A row names an identifier in a column. -/
def Row.Names (column : Column) (i : Identifier) (r : Row) : Prop := r.find? column.name = some (.id i)

/-- One of the rows of an answer names an identifier in a column. -/
def Answer.Lists (column : Column) (i : Identifier) (a : Answer) : Prop :=
  ∃ r ∈ a.allRows, r.Names column i

/-! ## Logs -/

/-- Nothing is written. -/
def Quiet (log : List Sent) : Prop := ∀ x ∈ log, x.statement.writes = false

theorem Quiet.nil : Quiet [] := List.forall_mem_nil _

theorem Quiet.cons {x : Sent} {log : List Sent} (hx : x.statement.writes = false)
    (h : Quiet log) : Quiet (x :: log) := List.forall_mem_cons.mpr ⟨hx, h⟩

/-- The log of a merge. The row is locked first, and it is updated only if it is the row of an open
pull request. -/
inductive MergeLog (id : Identifier) : List Sent → Prop where
  | idle (a : Scripted) {rest : List Sent} (quiet : Quiet rest) :
      MergeLog id (⟨.one, .lock id, a⟩ :: rest)
  | merged {row : Row} {p : PullRequest} (now : Instant) (a : Scripted) {rest : List Sent}
      (reads : row.pullRequest = .valid p) (opened : p.status = .opened) (quiet : Quiet rest) :
      MergeLog id (⟨.one, .lock id, .ok (.row row)⟩ :: ⟨.one, .closing id now, a⟩ :: rest)

/-- The log of a reassignment. The row is locked first, and pairs are changed only if it is the row of
an open pull request whose reviewers, as they are listed, have the old one among them. The new one is
among the active users of the author's team, and neither the author nor a reviewer. -/
inductive ReassignLog (id old : Identifier) : List Sent → Prop where
  | idle (a : Scripted) {rest : List Sent} (quiet : Quiet rest) :
      ReassignLog id old (⟨.one, .lock id, a⟩ :: rest)
  | replaced {locked mine his : Row} {p : PullRequest} {author new : User} {listed team : Answer}
      {rest : List Sent} (reads : locked.pullRequest = .valid p) (opened : p.status = .opened)
      (assigned : listed.Lists Schema.userId old) (readsAuthor : mine.user = .valid author)
      (teammate : his ∈ team.allRows) (readsNew : his.user = .valid new)
      (active : new.isActive = true) (foreign : new.id ≠ p.authorId) (other : new.id ≠ old)
      (free : ¬ listed.Lists Schema.userId new.id)
      (writes : (rest.filter fun x => x.statement.writes).map Sent.statement <+:
        [.unassignment p.id old, .assignment p.id new.id]) :
      ReassignLog id old (⟨.one, .lock id, .ok (.row locked)⟩ ::
        ⟨.all, .listing p.id, .ok listed⟩ :: ⟨.one, .rowOfUser p.authorId, .ok (.row mine)⟩ ::
        ⟨.all, .rowsOfTeam author.teamId, .ok team⟩ :: rest)

end Sql

/-- What the log of a command is to be: merging and reassigning keep to the row that they lock. -/
def Command.Guards : Command → List Sent → Prop
  | .merge id, log => MergeLog id log
  | .reassign id old _, log => ReassignLog id old log
  | _, _ => True

/-! ## Reading answers -/

namespace Dialogue

variable {Ask : Type} {Reply : Ask → Type} {α β : Type}

theorem bind_eq_done {d : Dialogue Ask Reply α} {k : α → Dialogue Ask Reply β} {b : β}
    (h : (d >>= k) = .done b) : ∃ a, d = .done a ∧ k a = .done b := by
  cases d with
  | done a => exact ⟨a, rfl, h⟩
  | fail f => cases h
  | note e rest => cases h
  | ask q next => cases h

/-- The values of dialogues that are held one after the other, when nothing is asked in them. -/
theorem mem_of_each {f : β → Dialogue Ask Reply α} {xs : List β} {as : List α}
    (h : each f xs = .done as) {a : α} : a ∈ as ↔ ∃ x ∈ xs, f x = .done a := by
  induction xs generalizing as with
  | nil =>
    cases h
    simp
  | cons x xs ih =>
    obtain ⟨b, hx, h⟩ := bind_eq_done h
    obtain ⟨bs, hxs, h⟩ := bind_eq_done h
    cases h
    rw [List.mem_cons, ih hxs]
    simp [hx, eq_comm]

end Dialogue

namespace Sql.Exchange

variable {α : Type}

theorem checked_eq_done {c : Checked α} {a : α} : checked c = .done a ↔ c = .valid a := by
  cases c with
  | valid b => exact ⟨fun h => congrArg _ (Dialogue.done.inj h), fun h => congrArg _ (Checked.valid.inj h)⟩
  | invalid is => exact ⟨nofun, nofun⟩

theorem row_of_entity {read : Row → Checked α} {f : Failure} {a : Answer} {x : α}
    (h : entity read f a = .done x) : ∃ r, a = .row r ∧ read r = .valid x := by
  cases a with
  | nothing => cases h
  | row r => exact ⟨r, rfl, checked_eq_done.mp h⟩
  | rows rs => cases h
  | plain r => cases h

theorem row_of_entities {read : Row → Checked α} {a : Answer} {xs : List α}
    (h : entities read a = .done xs) {x : α} (hx : x ∈ xs) :
    ∃ r ∈ a.allRows, read r = .valid x := by
  obtain ⟨r, hr, hread⟩ := (Dialogue.mem_of_each h).mp hx
  exact ⟨r, hr, checked_eq_done.mp hread⟩

theorem cellIn_eq_done {column : Column} {r : Row} {i : Identifier} :
    cellIn column r = .done (.identifier i) ↔ r.Names column i := by
  unfold cellIn Row.Names
  cases r.find? column.name with
  | none => exact ⟨nofun, nofun⟩
  | some d =>
    cases d with
    | id k => simp [Datum.cell, Cell.unfit?]
    | _ =>
      dsimp only [Datum.cell]
      split
      · exact ⟨nofun, nofun⟩
      · exact ⟨nofun, nofun⟩

/-! ## Requests -/

variable (log : List Sent)

theorem secures_pullRequest (id : Identifier) (lock : Bool) :
    (perform (.pullRequest id lock)).Secures
      (Fetched log .one (selectOne Schema.pullRequests [.equals Schema.id (.id id)] lock)
        fun b p => ∃ row, b = .row row ∧ row.pullRequest = .valid p) log :=
  secures_fetched (fun b => exists_entity _ _ b) (fun _ _ => row_of_entity) log

theorem secures_user (id : Identifier) : (perform (.user id)).Secures
    (Fetched log .one (.rowOfUser id) fun b u => ∃ row, b = .row row ∧ row.user = .valid u) log :=
  secures_fetched (fun b => exists_entity _ _ b) (fun _ _ => row_of_entity) log

theorem secures_usersOfTeam (teamId : Identifier) : (perform (.usersOfTeam teamId)).Secures
    (Fetched log .all (.rowsOfTeam teamId) fun b us =>
      ∀ u ∈ us, ∃ row ∈ b.allRows, row.user = .valid u) log := by
  refine secures_fetched (fun b => ?_) (fun b us h u hu => row_of_entities h hu) log
  exact exists_each (fun r => exists_checked (Row.user r)) b.allRows

/-- The reviewers that are found are those that are listed. -/
theorem secures_reviewersOf (p : Identifier) : (perform (.reviewersOf p)).Secures
    (Fetched log .all (.listing p) fun b cs => ∀ i, i ∈ Cell.ids cs ↔ b.Lists Schema.userId i) log := by
  refine secures_fetched (fun b => ?_) (fun b cs h i => ?_) log
  · obtain ⟨r, hr⟩ := exists_each (exists_cellIn Schema.userId) b.allRows
    rw [hr]
    cases r with
    | ok cells => exact ⟨.ok _, rfl⟩
    | error f => exact ⟨.error f, rfl⟩
  · obtain ⟨cells, hcells, h⟩ := Dialogue.bind_eq_done h
    obtain rfl := Dialogue.done.inj h
    rw [Cell.ids_setOf, Identifier.mem_setOf, Cell.mem_ids, Dialogue.mem_of_each hcells]
    simp only [cellIn_eq_done, Answer.Lists]

theorem secures_unassign (p u : Identifier) : (perform (.unassign p u)).Secures
    (fun log' _ => ∃ a, log' = log ++ [⟨.one, .unassignment p u, a⟩]) log := by
  intro a
  cases a with
  | error f => exact ⟨_, rfl⟩
  | ok a => cases a <;> exact ⟨_, rfl⟩

theorem secures_assign (p u : Identifier) : (perform (.assign p u)).Secures
    (fun log' _ => ∃ a, log' = log ++ [⟨.effect, .assignment p u, a⟩]) log := by
  intro a
  cases a <;> exact ⟨_, rfl⟩

/-- The row is updated, and is looked at once more if the update has found none. -/
theorem secures_setMerged (id : Identifier) : (perform (.setMerged id)).Secures
    (fun log' _ => ∃ now a rest, log' = log ++ ⟨.one, .closing id now, a⟩ :: rest ∧ Quiet rest)
      log := by
  intro now a
  have hupdated : ∃ now' a' rest, log ++ [⟨.one, .closing id now, a⟩] =
      log ++ ⟨.one, .closing id now', a'⟩ :: rest ∧ Quiet rest :=
    ⟨now, a, [], rfl, List.forall_mem_nil _⟩
  cases a with
  | error f => exact hupdated
  | ok a =>
    show Secures _ (Dialogue.ofExcept a.row? >>= _) _
    rcases a.row? with f | _ | r
    · exact hupdated
    · refine (secures_pullRequest _ id false).mono ?_
      rintro _ _ (_ | _) <;> exact ⟨now, .ok a, [_], List.append_assoc _ _ _, .cons rfl .nil⟩
    · obtain ⟨r, hr⟩ := exists_checked r.pullRequest
      show Secures _ (checked _) _
      rw [hr]
      exact secures_ofExcept.mpr hupdated

/-! ## Calls -/

theorem secures_merge (id : Identifier) :
    Secures (fun log _ => MergeLog id log) ((Operation.merge id).refine perform) [] := by
  refine secures_putOr_bind (secures_pullRequest [] id true) ?_ ?_
  · rintro _ _ _ ⟨a⟩
    exact .idle a .nil
  · rintro _ p (_ | ⟨row, rfl, hrow⟩)
    split
    · exact .idle _ .nil
    · rename_i hopen
      refine secures_putOr (secures_setMerged _ id) ?_
      rintro _ r r' ⟨now, a, rest, rfl, hrest⟩
      exact .merged now a hrow (PullRequest.opened_of_isMerged hopen) hrest

/-- The writes of a reassignment, in their order, as far as it comes to them. -/
theorem secures_writes (p old new : Identifier) {reword : Failure → Failure}
    (f : List Identifier → Replacement) :
    Secures (fun log' _ => ∃ rest, log' = log ++ rest ∧
        (rest.filter fun x => x.statement.writes).map Sent.statement <+:
          [.unassignment p old, .assignment p new])
      (Dialogue.refine perform do
        let () ← StoreCall.putOr (.unassign p old) reword
        let () ← StoreCall.put (.assign p new)
        let updated : List Cell ← StoreCall.put (.reviewersOf p)
        let shown ← Dialogue.ofExcept (Cell.shown updated)
        return f shown) log := by
  refine secures_putOr_bind (secures_unassign log p old) ?_ ?_
  · rintro _ - - ⟨a, rfl⟩
    exact ⟨_, rfl, [.assignment p new], rfl⟩
  rintro _ - ⟨a, rfl⟩
  refine secures_put_bind (secures_assign _ p new) ?_ ?_
  · rintro _ - - ⟨b, rfl⟩
    exact ⟨_, List.append_assoc _ _ _, [], rfl⟩
  rintro _ - ⟨b, rfl⟩
  rw [List.append_assoc]
  refine secures_put_bind (secures_reviewersOf _ p) ?_ ?_
  · rintro _ _ - (_ | _)
    exact ⟨_, List.append_assoc _ _ _, [], rfl⟩
  · rintro _ cells (_ | _)
    cases Cell.shown cells with
    | error f => exact ⟨_, List.append_assoc _ _ _, [], rfl⟩
    | ok ids => exact ⟨_, List.append_assoc _ _ _, [], rfl⟩

theorem secures_reassign (id old : Identifier) (draws : Draws) :
    Secures (fun log _ => ReassignLog id old log) ((Operation.reassign id old draws).refine perform)
      [] := by
  -- the first four statements are selections: a call that ends among them or after them is idle
  refine secures_putOr_bind (secures_pullRequest [] id true) ?_ ?_
  · rintro _ _ _ ⟨a⟩
    exact .idle a .nil
  rintro _ p (_ | ⟨locked, rfl, hlocked⟩)
  refine secures_put_bind (secures_reviewersOf _ p.id) ?_ ?_
  · rintro _ _ _ ⟨a⟩
    exact .idle _ (.cons rfl .nil)
  rintro _ cells (_ | hcurrent)
  dsimp only
  generalize Cell.ids cells = current at hcurrent ⊢
  cases hcheck : Selection.checkReplaceable p current old with
  | error f => exact .idle _ (.cons rfl .nil)
  | ok _ =>
    obtain ⟨hopened, hold⟩ := Selection.of_checkReplaceable hcheck
    refine secures_put_bind (secures_user _ p.authorId) ?_ ?_
    · rintro _ _ _ ⟨a⟩
      exact .idle _ (.cons rfl (.cons rfl .nil))
    rintro _ author (_ | ⟨mine, rfl, hmine⟩)
    refine secures_put_bind (secures_usersOfTeam _ author.teamId) ?_ ?_
    · rintro _ _ _ ⟨a⟩
      exact .idle _ (.cons rfl (.cons rfl (.cons rfl .nil)))
    rintro _ teammates (_ | hteam)
    split
    · exact .idle _ (.cons rfl (.cons rfl (.cons rfl .nil)))
    · cases hdrawn : Selection.replacement
          (Selection.eligible teammates (p.authorId :: old :: current)) draws with
      | error f => exact .idle _ (.cons rfl (.cons rfl (.cons rfl .nil)))
      | ok new =>
        obtain ⟨u, hu, hactive, hfree, rfl⟩ :=
          Selection.mem_eligible.mp (Selection.mem_of_replacement hdrawn)
        obtain ⟨his, hhis, hreads⟩ := hteam u hu
        simp only [List.mem_cons, not_or] at hfree
        obtain ⟨hforeign, hother, hunlisted⟩ := hfree
        rw [hcurrent] at hold hunlisted
        refine (secures_writes _ p.id old u.id _).mono ?_
        rintro _ - ⟨rest, rfl, hwrites⟩
        exact .replaced hlocked hopened hold hmine hhis hreads hactive hforeign hother hunlisted
          hwrites

/-- Whatever a command is answered, it is guarded, and nothing is sent after a failure. -/
theorem secures_command (c : Command) :
    Secures (fun log r => HaltsIn log r ∧ c.Guards log) (c.program.refine perform) [] := by
  have hhalts : Secures HaltsIn (c.program.refine perform) [] :=
    secures_haltsIn c.halts_exchange (List.forall_mem_nil _)
  have hguards : Secures (fun log _ => c.Guards log) (c.program.refine perform) [] := by
    cases c with
    | merge id => exact secures_merge id
    | reassign id old draws => exact secures_reassign id old draws
    | _ => exact hhalts.mono fun _ _ _ => trivial
  exact hhalts.combine hguards fun _ _ hlog hc => ⟨hlog, hc⟩

end Sql.Exchange

/-! ## Transactions -/

/-- What a connection is asked to do in a call: the statements alone if the call joins a transaction,
and otherwise a transaction of its own around them. -/
def Session.framed (name : String) (s : Session) (well : Bool) (acts : List Action) : List Action :=
  if s.stack.head? = some name then acts
  else [.acquire, .begin] ++ acts ++ [if well then .commit else .rollback, .release]

variable {name : String} {s : Session} {script : List Scripted} {past : List Action}

theorem Session.framed_joined (h : s.stack.head? = some name) (well : Bool) (acts : List Action) :
    s.framed name well acts = acts := if_pos h

theorem Session.framed_alone (h : s.stack.head? ≠ some name) (well : Bool) (acts : List Action) :
    s.framed name well acts =
      [.acquire, .begin] ++ acts ++ [if well then .commit else .rollback, .release] := if_neg h

/-- The exchange of a call stands in one transaction. -/
theorem Course.inTransaction_framed {α : Type} {p : Program α}
    {Q : List Sent → Except Failure α → Prop} (h : Exchange.Secures Q (p.refine perform) [])
    (hs : s.Reaches name script past) :
    ∃ r s' log, (inTransaction name Except.isOk fun h => converse h p).run s = some (r, s') ∧
      (s'.database name).trace = past ++ s.framed name r.isOk (log.map Sent.action) ∧
      Answered script log ∧ Q log r := by
  by_cases hstack : s.stack.head? = some name
  · obtain ⟨g, rest, hopened, rfl⟩ := Session.exists_of_stack hstack
    obtain ⟨r, s', log, left, hrun, hs', hanswered, hQ⟩ := exchange_of_secures h hs
    refine ⟨r, s', log, ?_, ?_, hanswered, hQ⟩
    · rw [inTransaction_joined hopened rfl, converse_connected p g hs, hrun]
    · rw [Session.framed_joined hstack, Session.database_of_lookup hs']
      exact List.reverse_reverse _
  · have outside := Session.outside_of_stack hstack
    obtain ⟨s₀, hs₀, -, hcall⟩ :=
      inTransaction_connected p (Session.database_of_lookup hs) outside
    obtain ⟨r, s₁, log, left, hrun, hs₁, hanswered, hQ⟩ := exchange_of_secures h hs₀
    obtain ⟨s', hwhole, htrace⟩ := hcall r s₁ _ left hrun hs₁
    refine ⟨r, s', log, hwhole, ?_, hanswered, hQ⟩
    rw [Session.framed_alone hstack]
    simpa using htrace

/-- **Whatever a connection answers, a command is safe on it.** The command comes to an end. Its
statements stand in one transaction, which is committed if the operation has returned and rolled back
if it has failed; a statement that fails is the last one; and a merge or a reassignment writes only
behind its lock, and only what the rows that were read allow. A command that joins a transaction sends
its statements and nothing else. -/
theorem Session.Reaches.command_guarded (hs : s.Reaches name script past) (c : Command) :
    ∃ r inner s' log,
      (Course.inTransaction name Except.isOk fun h => Course.converse h c.program).run s =
        some (r, inner) ∧
      (Course.command name c).run s = some (c.conclude r, s') ∧
      (s'.database name).trace = past ++ s.framed name r.isOk (log.map Sent.action) ∧
      Answered script log ∧ HaltsIn log r ∧ c.Guards log := by
  obtain ⟨r, inner, log, hwhole, htrace, hanswered, hlog, hguards⟩ :=
    Course.inTransaction_framed (Exchange.secures_command c) hs
  obtain ⟨es, hcommand⟩ := Task.command_concludes hwhole
  exact ⟨r, inner, _, log, hwhole, hcommand, htrace, hanswered, hlog, hguards⟩

/-- Answers on which user 3 takes the place of user 2 on a pull request of user 1. -/
def Sql.handover : List Scripted :=
  let user (n : Nat) : Row := [("id", .id (.ofNat n)), ("username", .text "reviewer"),
    ("is_active", .truth true), ("team_id", .id (.ofNat 9))]
  [.ok (.row [("id", .id (.ofNat 7)), ("name", .text "search"), ("author_id", .id (.ofNat 1)),
      ("status", .status .opened), ("created_at", .instant default), ("merged_at", .null)]),
    .ok (.rows [[("user_id", .id (.ofNat 2))]]), .ok (.row (user 1)),
    .ok (.rows [user 1, user 2, user 3]),
    .ok (.row [("pull_request_id", .id (.ofNat 7)), ("user_id", .id (.ofNat 2))]), .ok .nothing,
    .ok (.rows [[("user_id", .id (.ofNat 3))]])]

/-- A reassignment that goes well sends seven statements and commits. -/
theorem Session.Reaches.command_guarded_handover :
    let s := Task.answering "rota" handover (.holding "memory" .empty default)
    s.Reaches "rota" handover [] ∧
      ∃ r s' log,
        (Course.command "rota" (.reassign (.ofNat 7) (.ofNat 2) [])).run s = some (r, s') ∧
        (s'.database "rota").trace =
          [.acquire, .begin] ++ log.map Sent.action ++ [.commit, .release] ∧
        log.length = 7 ∧ ReassignLog (.ofNat 7) (.ofNat 2) log := by
  intro s
  have hs : s.Reaches "rota" handover [] := Session.lookup_putDatabase ..
  obtain ⟨r, inner, s', log, -, hrun, htrace, -, -, hlog⟩ :=
    hs.command_guarded (.reassign (.ofNat 7) (.ofNat 2) [])
  have hwell : ((Course.command "rota" (.reassign (.ofNat 7) (.ofNat 2) [])).run s).map
      (fun p => (p.1.isOk, (p.2.database "rota").trace.length)) = some (true, 11) := by
    decide +kernel
  rw [hrun, Option.map_some, Option.some.injEq, Prod.mk.injEq] at hwell
  obtain ⟨hok, hlength⟩ := hwell
  cases r with
  | error f => cases hok
  | ok a =>
    have halone : s.stack.head? ≠ some "rota" := nofun
    rw [Session.framed_alone halone] at htrace
    refine ⟨hs, _, s', log, hrun, htrace, ?_, hlog⟩
    rw [htrace] at hlength
    simpa using hlength

end ReviewRota
