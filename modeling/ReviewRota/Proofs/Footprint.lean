import ReviewRota.Operation.PullRequests
import ReviewRota.Proofs.Advancing
import ReviewRota.Proofs.Requests

/-!
# What calls about a pull request see and write

A merge and a replacement look at teams and users, and apart from those only at the row of one pull
request and at its pairs; they write nothing else. So what such a call does with a database depends
on that part of the contents alone, and what others write about other pull requests does not matter
to it: its steps can be repeated on contents that are alike.
-/

namespace ReviewRota

open Sql

namespace Sql

variable {p q : Identifier} {d d' : Contents}

/-! ## Contents that are alike -/

/-- The tables whose keys begin with a pull request. -/
def Schema.perPullRequest : List Table := [Schema.pullRequests, Schema.reviewers]

/-- A row that a call about a pull request may look at: one of its own in the tables whose keys begin
with a pull request, and any row of the other tables. -/
def Visible (p : Identifier) (name : String) (r : Row) : Prop :=
  ∀ t ∈ Schema.perPullRequest, name = t.name → (t.key r).head? = some (.id p)

theorem visible_of_key {t : Table} {r : Row} (ht : t ∈ Schema.perPullRequest)
    (hk : (t.key r).head? = some (.id p)) : Visible p t.name r := by
  have hnames : ∀ t ∈ Schema.perPullRequest, ∀ t' ∈ Schema.perPullRequest,
      t.name = t'.name → t = t' := by decide
  intro t' ht' hname
  rwa [← hnames t ht t' ht' hname]

theorem visible_of_shared {name : String} (h : name ∉ Schema.perPullRequest.map Table.name)
    (r : Row) : Visible p name r :=
  fun _ ht hname => absurd (hname ▸ List.mem_map_of_mem ht) h

/-- Contents that no call about a pull request can tell apart. -/
def Contents.Alike (p : Identifier) (d d' : Contents) : Prop :=
  ∀ name r, Visible p name r → (d name r ↔ d' name r)

namespace Write

def table : Write → Table
  | insert t _ | replace t _ | remove t _ => t

def key : Write → List Datum
  | insert t r | replace t r => t.key r
  | remove _ key => key

/-- A write of the row of a pull request or of one of its pairs. -/
structure Concerns (p : Identifier) (w : Write) : Prop where
  table : w.table ∈ Schema.perPullRequest
  key : w.key.head? = some (.id p)

end Write

namespace Contents.Alike

theorem refl (p : Identifier) (d : Contents) : d.Alike p d := fun _ _ _ => Iff.rfl

theorem symm (h : d.Alike p d') : d'.Alike p d := fun name r hr => (h name r hr).symm

theorem trans {d'' : Contents} (h : d.Alike p d') (h' : d'.Alike p d'') : d.Alike p d'' :=
  fun name r hr => (h name r hr).trans (h' name r hr)

theorem write (h : d.Alike p d') (w : Write) : (d.write w).Alike p (d'.write w) := by
  intro name r hr
  cases w <;> simp only [Contents.write, Contents.put, Contents.remove, h name r hr]

theorem writeAll (h : d.Alike p d') (ws : List Write) : (d.writeAll ws).Alike p (d'.writeAll ws) := by
  induction ws generalizing d d' with
  | nil => exact h
  | cons w ws ih => exact ih (h.write w)

/-- What is written about another pull request makes no difference. -/
theorem of_write {w : Write} (hne : q ≠ p) (hw : w.Concerns q) (d : Contents) :
    d.Alike p (d.write w) := by
  intro name r hr
  have hother : ¬ (name = w.table.name ∧ w.table.key r = w.key) := by
    rintro ⟨rfl, hkey⟩
    -- a visible row under this key would belong to both pull requests
    have hhead := hr w.table hw.table rfl
    rw [hkey, hw.key] at hhead
    exact hne (Datum.id.inj (Option.some.inj hhead))
  have hput : ∀ (t : Table) row, name = t.name ∧ r = row → name = t.name ∧ t.key r = t.key row :=
    fun t row h => ⟨h.1, congrArg t.key h.2⟩
  cases w with
  | insert t row =>
    exact ⟨fun hd => Or.inr ⟨hd, hother⟩, fun h => (h.resolve_left (hother ∘ hput t row)).1⟩
  | replace t row =>
    exact ⟨fun hd => Or.inr ⟨hd, hother⟩, fun h => (h.resolve_left (hother ∘ hput t row)).1⟩
  | remove t key => exact ⟨fun hd => ⟨hd, hother⟩, fun h => h.1⟩

theorem of_writeAll {ws : List Write} (hne : q ≠ p) (hws : ∀ w ∈ ws, w.Concerns q) (d : Contents) :
    d.Alike p (d.writeAll ws) := by
  induction ws generalizing d with
  | nil => exact refl p d
  | cons w ws ih =>
    rw [List.forall_mem_cons] at hws
    exact (of_write hne hws.1 d).trans (ih hws.2 (d.write w))

end Contents.Alike

/-! ## Statements -/

/-- Conditions that only rows meet which a call about a pull request may look at. -/
def Keeps (p : Identifier) (t : Table) (conditions : List Condition) : Prop :=
  ∀ r : Row, (∀ c ∈ conditions, c.Holds r) → Visible p t.name r

/-- A statement of a call about a pull request. The only row that it may lock is that of the pull
request. -/
def Statement.Within (p : Identifier) : Statement → Prop
  | .select t _ conditions _ _ _ lock =>
    Keeps p t conditions ∧ (lock = true → t = Schema.pullRequests)
  | .insert t values _ => t ∈ Schema.perPullRequest ∧
      ∀ row, Completes t values row → (t.key row).head? = some (.id p)
  | .update t _ conditions _ | .delete t conditions =>
      t ∈ Schema.perPullRequest ∧ Keeps p t conditions

variable {st : Statement} {rows : List Row} {ws : List Write}

theorem Lists.alike (h : d.Alike p d') {t : Table} {conditions : List Condition}
    (hkeeps : Keeps p t conditions) (hlists : Lists d t conditions rows) :
    Lists d' t conditions rows where
  nodup := hlists.nodup
  mem := fun r => by
    rw [hlists.mem]
    exact and_congr_left fun hr => h t.name r (hkeeps r hr)

theorem Attempts.alike (h : d.Alike p d') (within : st.Within p) (attempts : Attempts d st rows ws) :
    Attempts d' st rows ws := by
  cases attempts with
  | select lists ordered => exact .select (lists.alike h within.1) ordered
  | insert completes => exact .insert completes
  | update lists changes => exact .update (lists.alike h within.2) changes
  | delete unreferenced lists => exact .delete unreferenced (lists.alike h within.2)

/-- Whatever such a statement writes is about the pull request. -/
theorem Attempts.concerns (within : st.Within p) (attempts : Attempts d st rows ws) :
    ∀ w ∈ ws, w.Concerns p := by
  cases attempts with
  | select => exact fun w hw => absurd hw List.not_mem_nil
  | insert completes => exact List.forall_mem_singleton.mpr ⟨within.1, within.2 _ completes⟩
  | @update t _ _ _ changed lists changes =>
    refine List.forall_mem_map.mpr fun c hc => ⟨within.1, ?_⟩
    obtain ⟨-, hold⟩ := (lists.mem c.1).mp (List.mem_map_of_mem hc)
    show (t.key c.2).head? = _
    rw [(changes c hc).key]
    exact within.2 c.1 hold t within.1 rfl
  | @delete t _ _ unreferenced lists =>
    refine List.forall_mem_map.mpr fun r hr => ⟨within.1, ?_⟩
    obtain ⟨-, hold⟩ := (lists.mem r).mp hr
    exact within.2 r hold t within.1 rfl

/-- No two rows of these tables are kept apart by more than their keys. -/
theorem distinct_perPullRequest {t : Table} (ht : t ∈ Schema.perPullRequest) (d : Contents) :
    d.Distinct t :=
  Contents.distinct_of_uniques ((by decide : ∀ t ∈ Schema.perPullRequest, t.uniques = []) t ht) d

theorem Write.Clashes.alike {w : Write} {after after' : Contents} (h : d.Alike p d')
    (hw : w.Concerns p) (hc : w.Clashes d after) : w.Clashes d' after' := by
  cases w with
  | insert t r =>
    rcases hc with ⟨s, hs, hkey⟩ | hdouble
    · have hvisible : Visible p t.name s := visible_of_key hw.table (hkey ▸ hw.key)
      exact Or.inl ⟨s, (h t.name s hvisible).mp hs, hkey⟩
    · exact absurd (distinct_perPullRequest hw.table after) hdouble
  | replace t r => exact absurd (distinct_perPullRequest hw.table after) hc
  | remove t key => exact hc

/-- What a row of a pull request refers to can be looked at. -/
theorem refers_alike {t : Table} {r : Row} (h : d.Alike p d') (ht : t ∈ Schema.perPullRequest)
    (hr : (t.key r).head? = some (.id p)) (hrefers : d.Refers t r) : d'.Refers t r := by
  intro ref href
  refine (hrefers ref href).imp_right ?_
  rintro ⟨s, hs, hid⟩
  have husers : Visible p Schema.users.name s := visible_of_shared (by decide) s
  refine ⟨s, (h ref.table s ?_).mp hs, hid⟩
  -- a pull request refers to its author, a pair to its pull request and to a user
  rcases List.mem_cons.mp ht with rfl | ht
  · obtain rfl := List.mem_singleton.mp href
    exact husers
  · obtain rfl := List.mem_singleton.mp ht
    rcases List.mem_cons.mp href with rfl | href
    · refine visible_of_key (t := Schema.pullRequests) (.head _) ?_
      show some (s.value Schema.id.name) = _
      rw [hid]
      exact hr
    · obtain rfl := List.mem_singleton.mp href
      exact husers

theorem Write.Dangles.alike {w : Write} (h : d.Alike p d') (hw : w.Concerns p) (hd : w.Dangles d) :
    w.Dangles d' := by
  cases w with
  | insert t r =>
    exact hd.imp_right fun hlost hrefers => hlost (refers_alike h.symm hw.table hw.key hrefers)
  | replace t r =>
    exact hd.imp_right fun hlost hrefers => hlost (refers_alike h.symm hw.table hw.key hrefers)
  | remove t key => exact hd

variable {mode : Mode} {a : Scripted}

/-- **A statement of a call about a pull request is executed in the same way on contents that are
alike.** -/
theorem Executes.alike (h : d.Alike p d') (within : st.Within p)
    (executes : Executes d mode st a ws) : Executes d' mode st a ws := by
  cases executes with
  | done attempts distinct sound =>
    have hconcerns := attempts.concerns within
    refine .done (attempts.alike h within) (fun w hw hclash => ?_) fun w hw hdangles => ?_
    · exact distinct w hw (hclash.alike h.symm (hconcerns w hw))
    · exact sound w hw (hdangles.alike (h.writeAll ws).symm (hconcerns w hw))
  | @duplicate rows ws attempts clash text =>
    obtain ⟨w, hw, hclash⟩ := clash
    have hconcerns := attempts.concerns within w hw
    exact .duplicate (attempts.alike h within) ⟨w, hw, hclash.alike h hconcerns⟩ text
  | @interrupted rows ws attempts distinct dangling text =>
    have hconcerns := attempts.concerns within
    obtain ⟨w, hw, hdangles⟩ := dangling
    refine .interrupted (attempts.alike h within) (fun w hw hclash => ?_) ⟨w, hw, ?_⟩ text
    · exact distinct w hw (hclash.alike h.symm (hconcerns w hw))
    · exact hdangles.alike (h.writeAll ws) (hconcerns w hw)

theorem Executes.concerns (within : st.Within p) (executes : Executes d mode st a ws) :
    ∀ w ∈ ws, w.Concerns p := by
  cases executes with
  | done attempts => exact attempts.concerns within
  | duplicate => exact fun w hw => absurd hw List.not_mem_nil
  | interrupted => exact fun w hw => absurd hw List.not_mem_nil

/-! ## Exchanges -/

namespace Exchange

variable {α β : Type}

/-- An exchange that sends only statements of a call about a pull request, as long as the answers
are those of a database. -/
def Confined (p : Identifier) : Exchange α → Prop
  | .done _ | .fail _ => True
  | .note _ rest => Confined p rest
  | .ask .clock next => ∀ i, Confined p (next (.ok i))
  | .ask .freshId next => ∀ i, Confined p (next (.ok i))
  | .ask (.send mode st) next => st.Within p ∧
      ∀ (d : Contents) a ws, Executes d mode st a ws → Confined p (next a)

/-- What is left of an exchange is confined to a pull request, and so is what it has written. -/
structure Progress.Confined (p : Identifier) (P : Progress α) : Prop where
  rest : P.rest.Confined p
  writes : ∀ w ∈ P.writes, w.Concerns p

variable {P P' : Progress α}

theorem Progress.Confined.advance (h : P.Confined p) (step : Advances d P P') : P'.Confined p := by
  obtain ⟨hrest, hwrites⟩ := h
  cases step with
  | note => exact ⟨hrest, hwrites⟩
  | clock => exact ⟨hrest _, hwrites⟩
  | freshId => exact ⟨hrest _, hwrites⟩
  | send executes =>
    refine ⟨hrest.2 _ _ _ executes, fun w hw => ?_⟩
    rcases List.mem_append.mp hw with hw | hw
    · exact hwrites w hw
    · exact executes.concerns hrest.1 w hw

theorem Progress.Confined.reach (h : P.Confined p) (steps : Reaches d P P') : P'.Confined p := by
  induction steps with
  | refl => exact h
  | tail _ step ih => exact ih.advance step

theorem Advances.alike (h : d.Alike p d') (confined : P.Confined p) (step : Advances d P P') :
    Advances d' P P' := by
  cases step with
  | note => exact .note
  | clock => exact .clock
  | freshId => exact .freshId
  | send executes => exact .send (executes.alike (h.writeAll _) confined.rest.1)

/-- **The steps of a confined exchange can be repeated on contents that are alike.** -/
theorem Reaches.alike (h : d.Alike p d') (confined : P.Confined p) (steps : Reaches d P P') :
    Reaches d' P P' := by
  induction steps with
  | refl => exact .refl
  | tail steps step ih => exact ih.tail (step.alike h (confined.reach steps))

end Exchange

end Sql

/-! ## Requests -/

/-- The requests of a call about a pull request. -/
def StoreCall.About (p : Identifier) : StoreCall → Prop
  | user _ | usersOfTeam _ => True
  | pullRequest id _ | setMerged id | assign id _ | unassign id _ | reviewersOf id => id = p
  | _ => False

/-- A reply to such a request: a pull request that is looked up is the one that was asked for. -/
def StoreCall.Gives (p : Identifier) : (q : StoreCall) → Except Failure q.Reply → Prop
  | pullRequest .., r => ∀ pr, r = .ok pr → pr.id = p
  | _, _ => True

namespace Sql.Exchange

variable {p : Identifier} {α : Type}

section Requests

variable {β : Type}

theorem keeps_shared {t : Table} (h : t.name ∉ Schema.perPullRequest.map Table.name)
    (conditions : List Condition) : Keeps p t conditions :=
  fun r _ => visible_of_shared h r

/-- A condition on the pull request keeps to its rows. -/
theorem keeps_own {t : Table} {c : Column} {conditions : List Condition}
    (ht : t ∈ Schema.perPullRequest) (hc : .equals c (.id p) ∈ conditions)
    (hkey : ∀ r : Row, (t.key r).head? = some (r.value c.name)) : Keeps p t conditions := by
  intro r hr
  refine visible_of_key ht ?_
  rw [hkey]
  exact congrArg some (hr _ hc)

theorem keeps_pullRequest {conditions : List Condition}
    (hc : .equals Schema.id (.id p) ∈ conditions) : Keeps p Schema.pullRequests conditions :=
  keeps_own (.head _) hc fun _ => rfl

theorem keeps_pairs {conditions : List Condition}
    (hc : .equals Schema.pullRequestId (.id p) ∈ conditions) : Keeps p Schema.reviewers conditions :=
  keeps_own (.tail _ (.head _)) hc fun _ => rfl

/-- A statement after which the exchange goes on in the same way whatever it is answered. -/
theorem confined_send {mode : Mode} {st : Statement} {next : Scripted → Exchange β}
    (within : st.Within p) (hnext : ∀ a, Confined p (next a)) :
    Confined p (.ask (.send mode st) next) :=
  ⟨within, fun _ a _ _ => hnext a⟩

theorem confined_settle_of_exists {e : Exchange α} {k : Except Failure α → Exchange β}
    (h : ∃ r, e = Dialogue.ofExcept r) (hk : ∀ r, Confined p (k r)) : Confined p (e.settle k) := by
  obtain ⟨r, rfl⟩ := h
  rw [Dialogue.settle_ofExcept]
  exact hk r

/-- A request that is answered with an entity. -/
theorem confined_sendEntity {mode : Mode} {st : Statement} {read : Row → Checked α} {f : Failure}
    {k : Except Failure α → Exchange β} (within : st.Within p) (hk : ∀ r, Confined p (k r)) :
    Confined p ((send mode st >>= entity read f).settle k) := by
  simp only [send, Dialogue.settle_bind, Dialogue.settle_put]
  refine confined_send within fun a => ?_
  cases a with
  | error e => exact hk _
  | ok a => exact confined_settle_of_exists (exists_entity read f a) hk

/-- What a selection of one row can be answered with. -/
theorem answered_of_selectOne {d : Contents} {t : Table} {conditions : List Condition} {lock : Bool}
    {a : Scripted} {ws : List Write}
    (executes : Executes d .one (selectOne t conditions lock) a ws) : a = .ok .nothing ∨
      ∃ r : Row, a = .ok (.row (r.project t.columns)) ∧ ∀ c ∈ conditions, c.Holds r := by
  obtain ⟨rows, rfl, attempts⟩ := executes.attempts fun rows more attempts => by
    cases attempts
    exact d.accepts_nil
  cases attempts with
  | @select _ _ _ _ _ _ _ rows lists =>
    cases rows with
    | nil => exact Or.inl rfl
    | cons r rows => exact Or.inr ⟨r, rfl, ((lists.mem r).mp List.mem_cons_self).2⟩

/-- A pull request has the identifier of the row that it is read from. -/
theorem id_of_pullRequest {r : Row} {pr : PullRequest} (h : r.pullRequest = .valid pr)
    (hid : r.find? "id" = some (.id p)) : pr.id = p := by
  have hread : Row.required "id" Datum.readIdentifier r = .valid p := by
    simp [Row.required, hid, Datum.readIdentifier, Checked.under]
  -- the columns are read one after the other, the identifier first: peel the later ones off
  obtain ⟨_, merged, hcreated, -, rfl⟩ := Checked.seq_eq_valid.mp h
  obtain ⟨_, created, hstatus, -, rfl⟩ := Checked.seq_eq_valid.mp hcreated
  obtain ⟨_, status, hauthor, -, rfl⟩ := Checked.seq_eq_valid.mp hstatus
  obtain ⟨_, author, hname, -, rfl⟩ := Checked.seq_eq_valid.mp hauthor
  obtain ⟨_, name, hmk, -, rfl⟩ := Checked.seq_eq_valid.mp hname
  rw [hread] at hmk
  obtain rfl := Checked.valid.inj hmk
  rfl

/-- A pull request that is looked up by an identifier has that identifier. -/
theorem confined_findPullRequest {lock : Bool} {k : Except Failure PullRequest → Exchange β}
    (hk : ∀ r, (∀ pr, r = .ok pr → pr.id = p) → Confined p (k r)) :
    Confined p ((findPullRequest p lock).settle k) := by
  simp only [findPullRequest, send, Dialogue.settle_bind, Dialogue.settle_put]
  refine ⟨⟨keeps_pullRequest (.head _), fun _ => rfl⟩, fun d a ws executes => ?_⟩
  rcases answered_of_selectOne executes with rfl | ⟨r, rfl, hr⟩
  · refine hk _ fun pr h => ?_
    cases h
  · have hid : (r.project Schema.pullRequests.columns).find? "id" = some (.id p) :=
      congrArg some (hr _ (.head _))
    show Confined p ((checked (Row.pullRequest (r.project Schema.pullRequests.columns))).settle k)
    cases hread : Row.pullRequest (r.project Schema.pullRequests.columns) with
    | invalid is =>
      refine hk _ fun pr h => ?_
      cases h
    | valid pr =>
      refine hk (.ok pr) fun pr' he => ?_
      obtain rfl := Except.ok.inj he
      exact id_of_pullRequest hread hid

theorem confined_perform {q : StoreCall} {k : Except Failure q.Reply → Exchange β}
    (h : q.About p) (hk : ∀ r, q.Gives p r → Confined p (k r)) :
    Confined p ((perform q).settle k) := by
  cases q with
  | user id =>
    exact confined_sendEntity ⟨keeps_shared (by decide) _, nofun⟩ fun r => hk r trivial
  | usersOfTeam teamId =>
    simp only [perform, send, Dialogue.settle_bind, Dialogue.settle_put]
    refine confined_send ⟨keeps_shared (by decide) _, nofun⟩ fun a => ?_
    cases a with
    | error e => exact hk _ trivial
    | ok a =>
      exact confined_settle_of_exists (exists_each (fun r => exists_checked _) _)
        fun r => hk r trivial
  | pullRequest id lock =>
    obtain rfl := h
    exact confined_findPullRequest hk
  | setMerged id =>
    obtain rfl := h
    simp only [perform, clock, write, Dialogue.settle_bind, Dialogue.settle_put,
      Dialogue.settle_putOr]
    intro now
    refine confined_send ⟨.head _, keeps_pullRequest (.head _)⟩ fun a => ?_
    cases a with
    | error e => exact hk _ trivial
    | ok a =>
      refine confined_settle_of_exists ⟨_, rfl⟩ fun r => ?_
      cases r with
      | error e => exact hk _ trivial
      | ok row =>
        cases row with
        | none => exact confined_findPullRequest fun r _ => hk r trivial
        | some row => exact confined_settle_of_exists (exists_checked _) fun r => hk r trivial
  | assign id u =>
    obtain rfl := h
    simp only [perform, write, Dialogue.settle_bind, Dialogue.settle_putOr]
    refine confined_send ⟨.tail _ (.head _), fun row completes => ?_⟩ fun a => ?_
    · exact congrArg some (completes.given _ (.head _))
    · cases a with
      | error e => exact hk _ trivial
      | ok a => exact hk _ trivial
  | unassign id u =>
    obtain rfl := h
    simp only [perform, send, Dialogue.settle_bind, Dialogue.settle_put]
    refine confined_send ⟨.tail _ (.head _), keeps_pairs (.head _)⟩ fun a => ?_
    cases a with
    | error e => exact hk _ trivial
    | ok a =>
      refine confined_settle_of_exists ⟨_, rfl⟩ fun r => ?_
      cases r with
      | error e => exact hk _ trivial
      | ok row => cases row <;> exact hk _ trivial
  | reviewersOf id =>
    obtain rfl := h
    simp only [perform, pairColumn, send, Dialogue.settle_bind, Dialogue.settle_put]
    refine confined_send ⟨keeps_pairs (.head _), nofun⟩ fun a => ?_
    cases a with
    | error e => exact hk _ trivial
    | ok a =>
      refine confined_settle_of_exists (exists_each (exists_cellIn _) _) fun r => ?_
      cases r <;> exact hk _ trivial
  | _ => exact h.elim

end Requests

end Sql.Exchange

/-! ## Calls -/

namespace Program

variable {α β : Type} {p : Identifier}

/-- All requests of a call are about a pull request, as long as the replies are to what was asked
for. -/
def About (p : Identifier) : Program α → Prop
  | .done _ | .fail _ => True
  | .note _ rest => About p rest
  | .ask q next => q.About p ∧ ∀ r, q.Gives p r → About p (next r)

theorem about_ofExcept (r : Except Failure α) : About p (Dialogue.ofExcept r) := by
  cases r <;> trivial

theorem About.bind {c : Program α} {k : α → Program β} (hc : c.About p) (hk : ∀ a, (k a).About p) :
    (c >>= k).About p := by
  show About p (c.bind k)
  induction c with
  | done a => exact hk a
  | fail f => trivial
  | note e rest ih => exact ih hc
  | ask q next ih => exact ⟨hc.1, fun r hr => ih r (hc.2 r hr)⟩

theorem about_putOr {q : StoreCall} (h : q.About p) (reword : Failure → Failure) :
    About p (StoreCall.putOr q reword) :=
  ⟨h, fun r _ => about_ofExcept (r.mapError reword)⟩

/-- A request, and how the call goes on when it is granted. -/
theorem about_put_bind {q : StoreCall} {k : q.Reply → Program β} (h : q.About p)
    (hk : ∀ a, (k a).About p) : (StoreCall.put q >>= k).About p := by
  have hput : About p (StoreCall.put q) := ⟨h, fun r _ => about_ofExcept r⟩
  exact hput.bind hk

/-- A call goes on with the pull request that it has asked for. -/
theorem about_findPullRequest {lock : Bool} {k : PullRequest → Program β}
    (hk : ∀ pr : PullRequest, pr.id = p → (k pr).About p) :
    (Operation.findPullRequest p lock >>= k).About p := by
  refine ⟨rfl, fun r hr => ?_⟩
  cases r with
  | error f => trivial
  | ok pr => exact hk pr (hr pr rfl)

open Operation

theorem about_merge (id : Identifier) : (merge id).About id := by
  refine about_findPullRequest fun pr _ => ?_
  split
  · trivial
  · refine about_putOr ?_ _
    exact rfl

theorem about_reassign (id old : Identifier) (draws : Draws) : (reassign id old draws).About id := by
  refine about_findPullRequest fun pr hid => ?_
  refine about_put_bind hid fun current => ?_
  refine (about_ofExcept _).bind fun _ => ?_
  refine about_put_bind trivial fun author => ?_
  refine about_put_bind trivial fun teammates => ?_
  show About id (if _ then _ else _)
  split
  · trivial
  · refine (about_ofExcept _).bind fun new => ?_
    refine About.bind (about_putOr ?_ _) fun _ => ?_
    · exact hid
    · refine about_put_bind hid fun _ => ?_
      exact about_put_bind hid fun _ => (about_ofExcept _).bind fun _ => trivial

/-- A call about a pull request keeps to it over a connection. -/
theorem About.confined {c : Program α} (h : c.About p) :
    Sql.Exchange.Confined p (c.refine Sql.perform) := by
  induction c with
  | done a => trivial
  | fail f => trivial
  | note e rest ih => exact ih h
  | ask q next ih => exact Sql.Exchange.confined_perform h.1 fun r hr => ih r (h.2 r hr)

end Program

end ReviewRota
