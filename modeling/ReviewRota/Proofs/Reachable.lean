import ReviewRota.Proofs.Coherent
import ReviewRota.Proofs.Work

/-!
# Reachable tables

The tables that operations lead to from the empty ones, one operation after the other, whatever each
of them does and whatever the surroundings hand out to it. The calls of the service are operations
of this kind, and so are requests made to the store directly. Reachable tables are coherent.
-/

namespace ReviewRota

theorem Tables.Coherent.after {w : World} (h : w.tables.Coherent) (qs : List StoreCall) :
    (w.after qs).tables.Coherent := by
  induction qs generalizing w with
  | nil => exact h
  | cons q qs ih => exact ih (h.run q)

namespace Work

variable {α : Type}

theorem on_ofProgram (t : Tables) (p : Program α) (w : World) : (ofProgram p).on t w = p.on w := by
  induction p generalizing w with
  | done a => rfl
  | fail f => rfl
  | note e rest ih =>
    rw [ofProgram, on, ih]
    exact (Program.on_note e rest w).symm
  | ask q next ih => exact ih _ _

/-- A call leaves the tables that it leaves as an operation. -/
theorem leaves_ofProgram (t : Tables) (p : Program α) (supply : Supply) :
    (ofProgram p).leaves t supply =
      if (p.on ⟨t, supply⟩).1.isOk then (p.on ⟨t, supply⟩).2.tables else t := by
  unfold leaves outcome
  rw [← on_snd, on_ofProgram]

theorem coherent_leaves (work : Work α) {t : Tables} (h : t.Coherent) (supply : Supply) :
    (work.leaves t supply).Coherent := by
  unfold leaves
  split
  · exact Tables.Coherent.after h _
  · exact h

end Work

namespace Tables

/-- Tables that operations lead to from the empty ones. -/
inductive Reachable : Tables → Prop where
  | empty : Reachable .empty
  | operation {t : Tables} {α : Type} (past : Reachable t) (work : Work α) (supply : Supply) :
      Reachable (work.leaves t supply)

namespace Reachable

variable {t : Tables}

theorem coherent (h : t.Reachable) : t.Coherent := by
  induction h with
  | empty => exact coherent_empty
  | operation past work supply ih => exact work.coherent_leaves ih supply

theorem call (h : t.Reachable) (call : Task) : (call.leaves t).Reachable := by
  have hleaves := Work.leaves_ofProgram t call.program call.supply
  rw [Task.leaves, Task.outcome, ← hleaves]
  exact h.operation _ _

/-- Calls of the service lead to reachable tables, and no matter what calls these are. -/
theorem calls {ι : Type} (h : t.Reachable) (calls : ι → Task) (is : List ι) :
    (Task.leaveAll calls is t).Reachable := by
  induction is generalizing t with
  | nil => exact h
  | cons i is ih => exact ih (h.call (calls i))

end Reachable

end Tables

/-- Requests to the store as an operation. -/
def Work.requesting : List StoreCall → Work Unit
  | [] => .done ()
  | q :: qs => .ask q fun _ => requesting qs

/-- A team of three, one of whom has opened a pull request that another one reviews. -/
def Tables.staffed : Tables :=
  (Work.requesting [.createTeam "core",
    .createUser "ann" true (Supply.serial 1) (some (.ofNat 1)),
    .createUser "bob" true (Supply.serial 1) (some (.ofNat 2)),
    .createUser "cid" true (Supply.serial 1) (some (.ofNat 3)),
    .createPullRequest (.ofNat 7) "fix" (.ofNat 1), .assign (.ofNat 7) (.ofNat 2)]).leaves .empty
      default

theorem Tables.reachable_staffed : staffed.Reachable := .operation .empty _ _

end ReviewRota
