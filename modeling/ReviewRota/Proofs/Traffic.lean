import Mathlib.Logic.Relation
import ReviewRota.Proofs.Tasks

/-!
# Calls next to each other

Any number of calls at work on the same tables in memory, with a scheduler that lets one of them go
on at a time: to the lock, to the copy of the committed tables, to the next reply of the store, to
the commit, to the release of the lock, to the return. A call that reads takes hold of the
committed version once, at its start, and needs no lock.

The single steps of a transaction are those of `VersionedTables.start` and `finish`, taken apart so
that other calls can come in between.
-/

namespace ReviewRota

namespace VersionedTables

/-- The tables with the lock taken. -/
def lock (v : VersionedTables) : VersionedTables := { v with busy := true }

def unlock (v : VersionedTables) : VersionedTables := { v with busy := false }

/-- A new version, a copy of the committed one. -/
def copy (v : VersionedTables) : VersionedTables := { v with versions := v.versions ++ [v.committed] }

def commit (n : Nat) (v : VersionedTables) : VersionedTables := { v with current := n }

theorem start_eq (v : VersionedTables) : v.start = (v.versions.length, v.lock.copy) := rfl

theorem finish_true (n : Nat) (v : VersionedTables) : v.finish n true = (v.commit n).unlock := rfl

theorem finish_false (n : Nat) (v : VersionedTables) : v.finish n false = v.unlock := rfl

@[simp] theorem length_copy (v : VersionedTables) :
    v.copy.versions.length = v.versions.length + 1 := by
  simp [copy]

theorem version_copy_of_lt {n : Nat} {v : VersionedTables} (h : n < v.versions.length) :
    v.copy.version n = v.version n := by
  simp [copy, version, List.getElem?_append_left h]

theorem version_copy_self (v : VersionedTables) : v.copy.version v.versions.length = v.committed := by
  simp [copy, version]

/-- What is committed stays the same while a copy is taken. -/
theorem committed_copy {v : VersionedTables} (h : v.current < v.versions.length) :
    v.copy.committed = v.committed :=
  version_copy_of_lt h

theorem committed_write_of_ne {n : Nat} {v : VersionedTables} (h : n ≠ v.current) (t : Tables) :
    (v.write n t).committed = v.committed :=
  version_write_of_ne h t v

end VersionedTables

/-- How far a call has come. -/
inductive Stage (α : Type) where
  | idle
  /-- The call has the lock and no copy yet. -/
  | locked
  /-- Inside its transaction, which works on a version of its own. -/
  | inside (version : Nat) (supply : Supply) (rest : Program α)
  /-- The transaction is over, and the call still has the lock. -/
  | settled (r : Except Failure α)
  /-- The lock is released, and the call has not returned yet. -/
  | released (r : Except Failure α)
  /-- Reading a version that was committed when the call started. -/
  | reading (version : Nat) (supply : Supply) (rest : Program α)
  | returned (r : Except Failure α)

/-- Calls at work on tables in memory. -/
structure Traffic {ι : Type} (calls : ι → Task) where
  tables : VersionedTables
  stage : (i : ι) → Stage (calls i).Result
  /-- The calls that were given the lock, in this order. -/
  granted : List ι := []

namespace Traffic

variable {ι : Type} {calls : ι → Task}

/-- No call has started yet. -/
def opening (calls : ι → Task) (v : VersionedTables) : Traffic calls := ⟨v, fun _ => .idle, []⟩

variable [DecidableEq ι]

/-- A call comes to another stage, and the tables are others. -/
def moved (i : ι) (stage : Stage (calls i).Result) (v : VersionedTables) (s : Traffic calls) :
    Traffic calls :=
  { s with tables := v, stage := Function.update s.stage i stage }

/-- A call is given the lock. -/
def grantedTo (i : ι) (s : Traffic calls) : Traffic calls :=
  { s.moved i .locked s.tables.lock with granted := s.granted ++ [i] }

/-- A call that reads takes hold of what is committed. -/
def looking (i : ι) (s : Traffic calls) : Traffic calls :=
  s.moved i (.reading s.tables.current (calls i).supply (calls i).program) s.tables

/-- What a call can do when the scheduler lets it go on. -/
inductive Step (i : ι) (s : Traffic calls) : Traffic calls → Prop where
  | lock (at_idle : s.stage i = .idle) (writes : (calls i).writes = true)
      (free : s.tables.busy = false) : Step i s (s.grantedTo i)
  | copy (at_locked : s.stage i = .locked) :
      Step i s (s.moved i (.inside s.tables.versions.length (calls i).supply (calls i).program)
        s.tables.copy)
  | ask {n : Nat} {supply : Supply} {q : StoreCall}
      {next : Except Failure q.Reply → Program (calls i).Result}
      (at_ask : s.stage i = .inside n supply (.ask q next)) :
      Step i s (s.moved i
        (.inside n (q.run ⟨s.tables.version n, supply⟩).2.supply
          (next (q.run ⟨s.tables.version n, supply⟩).1))
        (s.tables.write n (q.run ⟨s.tables.version n, supply⟩).2.tables))
  | note {n : Nat} {supply : Supply} {e : Event} {rest : Program (calls i).Result}
      (at_note : s.stage i = .inside n supply (.note e rest)) :
      Step i s (s.moved i (.inside n supply rest) s.tables)
  /-- A transaction that went well puts its version in the place of the committed one. -/
  | commit {n : Nat} {supply : Supply} {a : (calls i).Result}
      (at_done : s.stage i = .inside n supply (.done a)) :
      Step i s (s.moved i (.settled (.ok a)) (s.tables.commit n))
  | giveUp {n : Nat} {supply : Supply} {f : Failure}
      (at_fail : s.stage i = .inside n supply (.fail f)) :
      Step i s (s.moved i (.settled (.error f)) s.tables)
  | unlock {r : Except Failure (calls i).Result} (at_settled : s.stage i = .settled r) :
      Step i s (s.moved i (.released r) s.tables.unlock)
  | conclude {r : Except Failure (calls i).Result} (at_released : s.stage i = .released r) :
      Step i s (s.moved i (.returned ((calls i).conclude r)) s.tables)
  | look (at_idle : s.stage i = .idle) (reads : (calls i).writes = false) : Step i s (s.looking i)
  | read {n : Nat} {supply : Supply} {q : StoreCall}
      {next : Except Failure q.Reply → Program (calls i).Result}
      (at_ask : s.stage i = .reading n supply (.ask q next)) :
      Step i s (s.moved i
        (.reading n (q.run ⟨s.tables.version n, supply⟩).2.supply
          (next (q.run ⟨s.tables.version n, supply⟩).1))
        (s.tables.write n (q.run ⟨s.tables.version n, supply⟩).2.tables))
  | skip {n : Nat} {supply : Supply} {e : Event} {rest : Program (calls i).Result}
      (at_note : s.stage i = .reading n supply (.note e rest)) :
      Step i s (s.moved i (.reading n supply rest) s.tables)
  | answer {n : Nat} {supply : Supply} {r : Except Failure (calls i).Result}
      (at_end : s.stage i = .reading n supply (Dialogue.ofExcept r)) :
      Step i s (s.moved i (.returned ((calls i).conclude r)) s.tables)

/-- The scheduler can bring the traffic from one state to another. -/
def Leads : Traffic calls → Traffic calls → Prop :=
  Relation.ReflTransGen fun s s' => ∃ i, Step i s s'

@[simp] theorem stage_moved_self (i : ι) (stage : Stage (calls i).Result) (v : VersionedTables)
    (s : Traffic calls) : (s.moved i stage v).stage i = stage := by
  simp [moved]

@[simp] theorem stage_moved_of_ne {i j : ι} (h : j ≠ i) (stage : Stage (calls i).Result)
    (v : VersionedTables) (s : Traffic calls) : (s.moved i stage v).stage j = s.stage j := by
  simp [moved, h]

@[simp] theorem tables_moved (i : ι) (stage : Stage (calls i).Result) (v : VersionedTables)
    (s : Traffic calls) : (s.moved i stage v).tables = v := rfl

@[simp] theorem stage_grantedTo_self (i : ι) (s : Traffic calls) :
    (s.grantedTo i).stage i = .locked :=
  stage_moved_self i .locked s.tables.lock s

@[simp] theorem stage_grantedTo_of_ne {i j : ι} (h : j ≠ i) (s : Traffic calls) :
    (s.grantedTo i).stage j = s.stage j :=
  stage_moved_of_ne h .locked s.tables.lock s

variable {i j : ι} {s s' : Traffic calls}

/-- A step is the step of one call only. -/
theorem Step.stage_of_ne (hs : Step i s s') (h : j ≠ i) : s'.stage j = s.stage j := by
  cases hs with
  | lock => exact stage_grantedTo_of_ne h s
  | _ => exact stage_moved_of_ne h _ _ s

/-- A call that has returned does nothing more. -/
theorem Step.ne_of_returned (hs : Step i s s') {r : Except Failure (calls j).Result}
    (h : s.stage j = .returned r) : j ≠ i := by
  rintro rfl
  cases hs <;> simp_all

theorem Leads.returned (hs : s.Leads s') {r : Except Failure (calls i).Result}
    (h : s.stage i = .returned r) : s'.stage i = .returned r := by
  induction hs with
  | refl => exact h
  | tail _ hstep ih =>
    obtain ⟨j, hj⟩ := hstep
    rw [hj.stage_of_ne (hj.ne_of_returned ih), ih]

end Traffic

end ReviewRota
