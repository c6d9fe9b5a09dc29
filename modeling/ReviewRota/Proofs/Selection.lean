import Mathlib.Data.List.Nodup
import ReviewRota.Selection

/-!
# Drawing keeps to the pool

Whatever the draws are, the shuffle only rearranges the pool. So the drawn reviewers are members of
the pool, none of them twice, and as many as the limit and the pool allow.
-/

namespace ReviewRota.Selection

variable {α : Type}

theorem exchange_perm (xs : List α) (i j : Nat) : (exchange xs i j).Perm xs := by
  unfold exchange
  split
  · rename_i a b ha hb
    obtain ⟨hi, rfl⟩ := List.getElem?_eq_some_iff.mp ha
    obtain ⟨hj, rfl⟩ := List.getElem?_eq_some_iff.mp hb
    exact List.set_set_perm hi hj
  · exact List.Perm.refl xs

theorem shuffleFrom_perm (i : Nat) (xs : List α) (ds : Draws) : (shuffleFrom i xs ds).Perm xs := by
  induction i generalizing xs ds with
  | zero => exact List.Perm.refl xs
  | succ i ih =>
    have hstep := exchange_perm xs (i + 1) (below (i + 2) ds).1
    exact (ih _ _).trans hstep

/-- Shuffling rearranges. -/
theorem shuffle_perm (xs : List α) (ds : Draws) : (shuffle xs ds).Perm xs := shuffleFrom_perm _ _ _

theorem upTo_isPrefix (limit : Int) (xs : List α) : upTo limit xs <+: xs := by
  unfold upTo
  split <;> exact List.take_prefix _ _

theorem length_upTo {limit : Int} (h : 0 ≤ limit) (xs : List α) :
    (upTo limit xs).length = min limit.toNat xs.length := by
  rw [upTo, if_pos h, List.length_take]

theorem mem_of_mem_reviewers {candidates : List Identifier} {limit : Int} {ds : Draws}
    {i : Identifier} (h : i ∈ reviewers candidates limit ds) : i ∈ candidates := by
  have hshuffled : i ∈ shuffle candidates ds := (upTo_isPrefix _ _).subset h
  exact (shuffle_perm candidates ds).mem_iff.mp hshuffled

theorem nodup_reviewers {candidates : List Identifier} (h : candidates.Nodup) (limit : Int)
    (ds : Draws) : (reviewers candidates limit ds).Nodup := by
  have hshuffled : (shuffle candidates ds).Nodup := (shuffle_perm candidates ds).nodup_iff.mpr h
  exact hshuffled.sublist (upTo_isPrefix _ _).sublist

theorem length_reviewers {limit : Int} (h : 0 ≤ limit) (candidates : List Identifier)
    (ds : Draws) :
    (reviewers candidates limit ds).length = min limit.toNat candidates.length := by
  rw [reviewers, length_upTo h, (shuffle_perm candidates ds).length_eq]

theorem mem_eligible {users : List User} {exclude : List Identifier} {i : Identifier} :
    i ∈ eligible users exclude ↔
      ∃ u ∈ users, u.isActive = true ∧ u.id ∉ exclude ∧ u.id = i := by
  simp only [eligible, List.mem_map, List.mem_filter, Bool.and_eq_true, Bool.not_eq_true',
    List.contains_eq_mem, decide_eq_false_iff_not, and_assoc]

theorem nodup_eligible {users : List User} (h : (users.map User.id).Nodup)
    (exclude : List Identifier) : (eligible users exclude).Nodup :=
  h.sublist (List.filter_sublist.map _)

theorem below_lt {n : Nat} (h : 0 < n) (ds : Draws) : (below n ds).1 < n := by
  cases ds with
  | nil => exact h
  | cons d ds => exact Nat.mod_lt d h

/-- From a pool that is not empty a replacement can always be drawn. -/
theorem exists_replacement {candidates : List Identifier} (h : candidates ≠ []) (ds : Draws) :
    ∃ c ∈ candidates, replacement candidates ds = .ok c := by
  have hlt := below_lt (List.length_pos_iff.mpr h) ds
  refine ⟨candidates[(below candidates.length ds).1], List.getElem_mem hlt, ?_⟩
  rw [replacement, List.getElem?_eq_getElem hlt]

theorem mem_of_replacement {candidates : List Identifier} {ds : Draws} {i : Identifier}
    (h : replacement candidates ds = .ok i) : i ∈ candidates := by
  unfold replacement at h
  split at h
  · rename_i hi
    cases h
    exact List.mem_of_getElem? hi
  · cases h

theorem of_checkReplaceable {p : PullRequest} {current : List Identifier} {old : Identifier}
    (h : checkReplaceable p current old = .ok ()) : p.status = .opened ∧ old ∈ current := by
  unfold checkReplaceable at h
  split at h
  · cases h
  · rename_i hopen
    split at h
    · cases h
    · rename_i hold
      exact ⟨PullRequest.opened_of_isMerged hopen, by simpa using hold⟩

end ReviewRota.Selection
