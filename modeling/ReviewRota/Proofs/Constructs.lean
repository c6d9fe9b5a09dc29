import ReviewRota.Operation
import ReviewRota.Proofs.Ensuring

/-!
# The constructs of dialogues

Exchanges and calls are put together from few constructs: a question is put and its failures are
passed on, in other words or not; only the absence of something can be survived. A property that
these constructs keep is a property of every exchange and of every call.
-/

namespace ReviewRota

/-- The ways in which failures are passed on in other words: a duplicate that a statement makes is a
conflict, and a call puts a refusal of its own in the place of what is absent or in conflict. -/
inductive Failure.Rewording : (Failure → Failure) → Prop where
  | duplicate : Rewording fun f =>
      match f with
      | .duplicate _ => .plain .conflict
      | f => f
  | absent (other : Failure) : Rewording (replacing .notFound other)
  | taken {other : Failure} (present : other.isA .notFound = false) :
      Rewording (replacing .conflict other)

namespace Dialogue

variable {Ask : Type} {Reply : Ask → Type}

/-- A property that the constructs of dialogues keep. -/
structure Closed (P : {α : Type} → Dialogue Ask Reply α → Prop) : Prop where
  ofExcept {α : Type} (r : Except Failure α) : P (Dialogue.ofExcept r : Dialogue Ask Reply α)
  note {α : Type} (e : Event) {d : Dialogue Ask Reply α} : P d → P (.note e d)
  bind {α β : Type} {d : Dialogue Ask Reply α} {k : α → Dialogue Ask Reply β} :
    P d → (∀ a, P (k a)) → P (d >>= k)
  /-- A question after which the dialogue may go on when what was asked for is absent. -/
  ask {α : Type} (q : Ask) {next : Except Failure (Reply q) → Dialogue Ask Reply α} :
    (∀ a, P (next (.ok a))) → (∀ f, f.isA .notFound = true → P (next (.error f))) →
      (∀ f, f.isA .notFound = false → next (.error f) = .fail f) → P (.ask q next)
  putOr (q : Ask) {reword : Failure → Failure} : Failure.Rewording reword →
    P (Dialogue.putOr q reword : Dialogue Ask Reply (Reply q))

namespace Closed

variable {P : {α : Type} → Dialogue Ask Reply α → Prop} (h : Closed P)
include h

theorem done {α : Type} (a : α) : P (.done a : Dialogue Ask Reply α) := h.ofExcept (.ok a)

theorem fail {α : Type} (f : Failure) : P (.fail f : Dialogue Ask Reply α) := h.ofExcept (.error f)

theorem put (q : Ask) : P (Dialogue.put q : Dialogue Ask Reply (Reply q)) :=
  h.ask q h.done (fun f _ => h.fail f) fun _ _ => rfl

/-- Nothing is asked in a dialogue that is over. -/
theorem of_exists {α : Type} {d : Dialogue Ask Reply α} (hd : ∃ r, d = Dialogue.ofExcept r) :
    P d := by
  obtain ⟨r, rfl⟩ := hd
  exact h.ofExcept r

theorem each {α β : Type} {f : β → Dialogue Ask Reply α} (hf : ∀ x, P (f x)) (xs : List β) :
    P (Dialogue.each f xs) := by
  induction xs with
  | nil => exact h.done []
  | cons x xs ih => exact h.bind (hf x) fun a => h.bind ih fun as => h.done (a :: as)

end Closed

/-! ## Exchanges -/

namespace Closed

open Sql Exchange

variable {P : {α : Type} → Exchange α → Prop} (h : Closed P)
include h

theorem send (mode : Mode) (st : Statement) : P (Exchange.send mode st) := h.put _

theorem write (mode : Mode) (st : Statement) : P (Exchange.write mode st) := h.putOr _ .duplicate

theorem entity {α : Type} (read : Row → Checked α) (f : Failure) (a : Answer) :
    P (Exchange.entity read f a) :=
  h.of_exists (exists_entity read f a)

theorem entities {α : Type} (read : Row → Checked α) (a : Answer) : P (Exchange.entities read a) :=
  h.each (fun r => h.of_exists (exists_checked (read r))) _

theorem pairColumn (column : Column) (condition : Condition) :
    P (Sql.pairColumn column condition) := by
  refine h.bind (h.send _ _) fun a => ?_
  exact h.bind (h.each (fun r => h.of_exists (exists_cellIn column r)) _) fun _ => h.done _

theorem findRow (id : Identifier) (lock : Bool) : P (Sql.findPullRequest id lock) :=
  h.bind (h.send _ _) fun a => h.entity _ _ a

/-- A property that the constructs keep is one of the statements of every request. -/
theorem perform (c : StoreCall) : P (Sql.perform c) := by
  cases c with
  | createTeam name =>
    exact h.bind (h.put _) fun id => h.bind (h.write _ _) fun a => h.entity _ _ a
  | teamNamed name => exact h.bind (h.send _ _) fun a => h.entity _ _ a
  | team id => exact h.bind (h.send _ _) fun a => h.entity _ _ a
  | createUser username isActive teamId id? =>
    cases id? with
    | some id => exact h.bind (h.done id) fun id => h.bind (h.write _ _) fun a => h.entity _ _ a
    | none => exact h.bind (h.put _) fun id => h.bind (h.write _ _) fun a => h.entity _ _ a
  | user id => exact h.bind (h.send _ _) fun a => h.entity _ _ a
  | setActive id isActive => exact h.bind (h.write _ _) fun a => h.entity _ _ a
  | usersOfTeam teamId => exact h.bind (h.send _ _) fun a => h.entities _ a
  | updateUser user => exact h.bind (h.write _ _) fun a => h.entity _ _ a
  | createPullRequest id name authorId =>
    exact h.bind (h.put _) fun now => h.bind (h.write _ _) fun a => h.entity _ _ a
  | pullRequest id lock => exact h.findRow id lock
  | pullRequests ids =>
    show P (if ids.isEmpty then pure [] else _)
    split
    · exact h.done []
    · exact h.bind (h.send _ _) fun a => h.entities _ a
  | setMerged id =>
    refine h.bind (h.put _) fun now => h.bind (h.write _ _) fun a => ?_
    refine h.bind (h.ofExcept a.row?) fun row? => ?_
    cases row? with
    | some r => exact h.of_exists (exists_checked _)
    | none => exact h.findRow id false
  | assign p u => exact h.bind (h.write _ _) fun _ => h.done ()
  | unassign p u =>
    refine h.bind (h.send _ _) fun a => h.bind (h.ofExcept a.row?) fun row? => ?_
    cases row? with
    | some r => exact h.done ()
    | none => exact h.fail _
  | reviewersOf p => exact h.pairColumn _ _
  | reviewedBy u => exact h.pairColumn _ _

end Closed

/-! ## Calls of the service -/

namespace Closed

open Operation

variable {P : {α : Type} → Program α → Prop} (h : Closed P)
include h

theorem findPullRequest (id : Identifier) (lock : Bool) : P (Operation.findPullRequest id lock) :=
  h.putOr _ (.absent _)

/-- A member is looked up first, and only his absence says that he is new. -/
theorem putMember (teamId : Identifier) (m : MemberDraft) : P (Operation.putMember teamId m) := by
  refine h.ask _ (fun _ => h.putOr _ (.taken rfl)) (fun f hf => ?_) fun f hf => ?_
  · show P (if f.isA .notFound then _ else .fail f)
    rw [if_pos hf]
    exact h.putOr _ (.taken rfl)
  · show (if f.isA .notFound then _ else Dialogue.fail f) = _
    rw [if_neg (by simp [hf])]

theorem assignments (p : Identifier) (users : List Identifier) :
    P (Dialogue.each (fun user => StoreCall.put (.assign p user)) users) :=
  h.each (fun user => h.put (StoreCall.assign p user)) users

theorem reassign (id old : Identifier) (draws : Draws) : P (Operation.reassign id old draws) := by
  refine h.bind (h.findPullRequest id true) fun pr => h.bind (h.put _) fun current => ?_
  refine h.bind (h.ofExcept _) fun _ => h.bind (h.put _) fun author => ?_
  refine h.bind (h.put _) fun teammates => ?_
  dsimp only
  split
  · exact h.note _ (h.fail _)
  · refine h.bind (h.ofExcept _) fun new => h.bind (h.putOr _ (.absent _)) fun _ => ?_
    exact h.bind (h.put _) fun _ => h.bind (h.put _) fun _ => h.bind (h.ofExcept _) fun _ => h.done _

/-- A property that the constructs keep is one of every command. -/
theorem command (c : Command) : P c.program := by
  cases c with
  | createTeam draft =>
    refine h.bind (h.putOr _ (.taken rfl)) fun team => ?_
    exact h.bind (h.each (h.putMember team.id) draft.members) fun _ => h.done _
  | setActive id isActive =>
    exact h.bind (h.putOr _ (.absent _)) fun _ => h.bind (h.put _) fun _ => h.done _
  | openPullRequest id name authorId draws limit =>
    refine h.bind (h.putOr _ (.absent _)) fun author => h.bind (h.putOr _ (.taken rfl)) fun pr => ?_
    exact h.bind (h.put _) fun teammates => h.bind (h.assignments pr.id _) fun _ => h.done _
  | merge id =>
    refine h.bind (h.findPullRequest id true) fun pr => ?_
    split
    · exact h.done pr
    · exact h.putOr _ (.absent _)
  | reassign id old draws => exact h.reassign id old draws

/-- A property that the constructs keep is one of every query. -/
theorem query (q : Query) : P q.program := by
  cases q with
  | team name => exact h.bind (h.putOr _ (.absent _)) fun _ => h.bind (h.put _) fun _ => h.done _
  | user id => exact h.putOr _ (.absent _)
  | review id =>
    refine h.bind (h.findPullRequest id false) fun _ => h.bind (h.put _) fun _ => ?_
    exact h.bind (h.ofExcept _) fun _ => h.done _
  | assignedReviews id =>
    refine h.bind (h.put _) fun ids => ?_
    split
    · exact h.done []
    · refine h.bind (h.put _) fun prs => ?_
      split
      · exact h.done _
      · exact h.fail _

end Closed

end Dialogue

end ReviewRota
