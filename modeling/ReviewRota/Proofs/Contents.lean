import Mathlib.Data.List.Nodup
import ReviewRota.Tables

/-!
# What tables hold

Ledgers and pairs seen through what can be found in them. Values are found under keys, a set of
identifiers is an ordered list without repetition, and the reviewers of a pull request are the
second halves of its pairs. Whatever two operations do to the lists inside, they do the same when
they agree on what is found afterwards.
-/

namespace ReviewRota

/-! ## Identifiers -/

namespace Identifier

theorem toNat_injective {a b : Identifier} (h : a.toNat = b.toNat) : a = b := by
  obtain ⟨a⟩ := a
  obtain ⟨b⟩ := b
  have hbits : a = b := BitVec.eq_of_toNat_eq h
  rw [hbits]

theorem le_trans (a b c : Identifier) (hab : a.le b = true) (hbc : b.le c = true) :
    a.le c = true := by
  simp only [le, decide_eq_true_eq] at *
  omega

theorem le_total (a b : Identifier) : (a.le b || b.le a) = true := by
  simp only [le, Bool.or_eq_true, decide_eq_true_eq]
  omega

theorem le_antisymm {a b : Identifier} (hab : a.le b = true) (hba : b.le a = true) : a = b := by
  simp only [le, decide_eq_true_eq] at hab hba
  exact toNat_injective (Nat.le_antisymm hab hba)

@[simp] theorem mem_setOf {i : Identifier} {ids : List Identifier} :
    i ∈ setOf ids ↔ i ∈ ids := by
  simp [setOf, List.mem_eraseDups]

theorem nodup_eraseDups (ids : List Identifier) : ids.eraseDups.Nodup := by
  -- one step drops all occurrences of the head, so the induction is on the length
  induction h : ids.length using Nat.strongRecOn generalizing ids with
  | ind n ih =>
    cases ids with
    | nil => simp
    | cons i rest =>
      rw [List.eraseDups_cons, List.nodup_cons]
      have hlt : (rest.filter fun j => !j == i).length < n := by
        have hle := List.length_filter_le (fun j => !j == i) rest
        simp only [List.length_cons] at h
        omega
      constructor
      · simp [List.mem_eraseDups]
      · exact ih _ hlt _ rfl

theorem nodup_setOf (ids : List Identifier) : (setOf ids).Nodup := by
  have hperm : (setOf ids).Perm ids.eraseDups := List.mergeSort_perm _ _
  rw [hperm.nodup_iff]
  exact nodup_eraseDups ids

theorem setOf_sorted (ids : List Identifier) :
    (setOf ids).Pairwise fun a b => a.le b = true :=
  List.pairwise_mergeSort le_trans le_total _

theorem setOf_strictly_sorted (ids : List Identifier) :
    (setOf ids).Pairwise fun a b => a.toNat < b.toNat := by
  have hboth := (setOf_sorted ids).and (nodup_setOf ids)
  refine hboth.imp ?_
  rintro a b ⟨hle, hne⟩
  have hnat : a.toNat ≤ b.toNat := of_decide_eq_true hle
  have hdifferent : a.toNat ≠ b.toNat := fun he => hne (toNat_injective he)
  omega

/-- Two lists of the same identifiers in strictly rising order are one list. -/
theorem eq_of_strictly_sorted {ids others : List Identifier}
    (hids : ids.Pairwise fun a b => a.toNat < b.toNat)
    (hothers : others.Pairwise fun a b => a.toNat < b.toNat) (same : ∀ i, i ∈ ids ↔ i ∈ others) :
    ids = others := by
  have hne : ∀ a b : Identifier, a.toNat < b.toNat → a ≠ b := by
    rintro a b hlt rfl
    exact Nat.lt_irrefl _ hlt
  have hperm := (List.perm_ext_iff_of_nodup (hids.imp (hne _ _)) (hothers.imp (hne _ _))).mpr same
  refine hperm.eq_of_pairwise ?_ hids hothers
  intro a b _ _ hab hba
  exact absurd hba (Nat.lt_asymm hab)

/-- A set does not depend on the order or the number of times in which its members were listed. -/
theorem setOf_congr {ids others : List Identifier} (h : ∀ i, i ∈ ids ↔ i ∈ others) :
    setOf ids = setOf others := by
  have hperm : (setOf ids).Perm (setOf others) := by
    rw [List.perm_ext_iff_of_nodup (nodup_setOf ids) (nodup_setOf others)]
    intro i
    rw [mem_setOf, mem_setOf, h i]
  exact hperm.eq_of_pairwise (fun _ _ _ _ => le_antisymm) (setOf_sorted ids) (setOf_sorted others)

theorem setOf_ext {ids others : List Identifier} (h : ∀ i, i ∈ setOf ids ↔ i ∈ setOf others) :
    setOf ids = setOf others :=
  setOf_congr fun i => by rw [← mem_setOf, h i, mem_setOf]

end Identifier

/-! ## Ledgers -/

namespace Ledger

variable {α : Type}

theorem mem_values {l : Ledger α} {v : α} : v ∈ l.values ↔ ∃ k, l.find? k = some v := by
  simp only [values, List.mem_map, find?_eq_some_iff, Prod.exists, exists_eq_right]

theorem find?_perm {l l' : Ledger α} (h : l.entries.Perm l'.entries) (k : Identifier) :
    l.find? k = l'.find? k := by
  ext v
  rw [find?_eq_some_iff, find?_eq_some_iff, h.mem_iff]

theorem ne_of_find? {l : Ledger α} {j k : Identifier} {v : α} (h : l.find? j = some v)
    (h' : l.find? k = none) : j ≠ k := by
  rintro rfl
  rw [h] at h'
  cases h'

/-- There is one value under a key. -/
theorem eq_of_find? {l : Ledger α} {j k : Identifier} {v w : α} (h : l.find? j = some v)
    (h' : l.find? k = some w) (same : j = k) : v = w := by
  subst same
  exact Option.some.inj (h.symm.trans h')

theorem contains_eq_false {l : Ledger α} {k : Identifier} :
    l.contains k = false ↔ l.find? k = none := by
  simp [contains]

theorem contains_eq_true {l : Ledger α} {k : Identifier} :
    l.contains k = true ↔ ∃ v, l.find? k = some v := by
  simp [contains, Option.isSome_iff_exists]

/-- Every value is filed under its own key. -/
def Keyed (key : α → Identifier) (l : Ledger α) : Prop :=
  ∀ k v, l.find? k = some v → key v = k

theorem keyed_empty (key : α → Identifier) : (empty : Ledger α).Keyed key := by
  intro k v h
  simp at h

theorem Keyed.put {key : α → Identifier} {l : Ledger α} (h : l.Keyed key) (v : α) :
    (l.put (key v) v).Keyed key := by
  intro k w hw
  rw [find?_put] at hw
  split at hw
  · rename_i hk
    rw [hk, Option.some.inj hw]
  · exact h k w hw

/-- A value is among those of a keyed ledger when it is found under its key. -/
theorem Keyed.mem_values {key : α → Identifier} {l : Ledger α} (h : l.Keyed key) {v : α} :
    v ∈ l.values ↔ l.find? (key v) = some v := by
  rw [Ledger.mem_values]
  constructor
  · rintro ⟨k, hk⟩
    rwa [h k v hk]
  · intro hv
    exact ⟨key v, hv⟩

theorem Keyed.map_values {key : α → Identifier} {l : Ledger α} (h : l.Keyed key) :
    l.values.map key = l.keys := by
  rw [values, keys, List.map_map]
  apply List.map_congr_left
  rintro ⟨k, v⟩ hm
  exact h k v (l.find?_eq_some_iff.mpr hm)

theorem Keyed.nodup_values {key : α → Identifier} {l : Ledger α} (h : l.Keyed key) :
    (l.values.map key).Nodup := by
  rw [h.map_values]
  exact l.distinct

/-- The ledger with values put under their keys one after the other. -/
def putAll (key : α → Identifier) (vs : List α) (l : Ledger α) : Ledger α :=
  vs.foldl (fun l v => l.put (key v) v) l

@[simp] theorem putAll_nil (key : α → Identifier) (l : Ledger α) : l.putAll key [] = l := rfl

@[simp] theorem putAll_cons (key : α → Identifier) (v : α) (vs : List α) (l : Ledger α) :
    l.putAll key (v :: vs) = (l.put (key v) v).putAll key vs := rfl

theorem Keyed.putAll {key : α → Identifier} {l : Ledger α} (h : l.Keyed key) (vs : List α) :
    (l.putAll key vs).Keyed key := by
  induction vs generalizing l with
  | nil => exact h
  | cons v vs ih => exact ih (h.put v)

/-- Values of different keys do not displace one another. -/
theorem find?_putAll {key : α → Identifier} {vs : List α} (hn : (vs.map key).Nodup)
    (l : Ledger α) (k : Identifier) (w : α) : (l.putAll key vs).find? k = some w ↔
      (w ∈ vs ∧ key w = k) ∨ (k ∉ vs.map key ∧ l.find? k = some w) := by
  induction vs generalizing l with
  | nil => simp
  | cons v vs ih =>
    rw [List.map_cons, List.nodup_cons] at hn
    obtain ⟨hfirst, hrest⟩ := hn
    rw [putAll_cons, ih hrest, find?_put]
    by_cases hk : k = key v
    · subst hk
      have hw : ∀ w ∈ vs, key w ≠ key v := by
        intro w hm he
        exact hfirst (List.mem_map.mpr ⟨w, hm, he⟩)
      constructor
      · rintro (⟨hm, he⟩ | ⟨-, he⟩)
        · exact absurd he (hw w hm)
        · rw [if_pos rfl] at he
          rw [Option.some.inj he]
          exact Or.inl ⟨List.mem_cons_self, rfl⟩
      · rintro (⟨hm, he⟩ | ⟨hm, -⟩)
        · rcases List.mem_cons.mp hm with rfl | hm
          · exact Or.inr ⟨hfirst, if_pos rfl⟩
          · exact absurd he (hw w hm)
        · exact absurd List.mem_cons_self hm
    · have hne : key v ≠ k := fun he => hk he.symm
      simp only [if_neg hk, List.map_cons, List.mem_cons, not_or]
      constructor
      · rintro (⟨hm, he⟩ | ⟨hm, he⟩)
        · exact Or.inl ⟨Or.inr hm, he⟩
        · exact Or.inr ⟨⟨hk, hm⟩, he⟩
      · rintro (⟨rfl | hm, he⟩ | ⟨⟨-, hm⟩, he⟩)
        · exact absurd he hne
        · exact Or.inl ⟨hm, he⟩
        · exact Or.inr ⟨hm, he⟩

end Ledger

/-! ## Pairs -/

namespace Pairs

@[simp] theorem not_mem_empty (q : Identifier × Identifier) : q ∉ empty := List.not_mem_nil

@[simp] theorem mem_reviewersOf {p u : Identifier} {ps : Pairs} :
    u ∈ ps.reviewersOf p ↔ (p, u) ∈ ps := by
  show _ ↔ (p, u) ∈ ps.list
  simp [reviewersOf]

theorem nodup_reviewersOf (p : Identifier) (ps : Pairs) : (ps.reviewersOf p).Nodup :=
  Identifier.nodup_setOf _

theorem reviewersOf_sorted (p : Identifier) (ps : Pairs) :
    (ps.reviewersOf p).Pairwise fun a b => a.toNat < b.toNat :=
  Identifier.setOf_strictly_sorted _

/-- The set of the reviewers is shown as it is kept. -/
@[simp] theorem shown_reviewersOf (p : Identifier) (ps : Pairs) :
    Cell.shown ((ps.reviewersOf p).map .identifier) = .ok (ps.reviewersOf p) := by
  rw [Cell.shown_map_identifier, reviewersOf, List.mergeSort_of_pairwise (Identifier.setOf_sorted _)]

/-- The reviewers of a pull request depend on its own pairs only. -/
theorem reviewersOf_congr {p : Identifier} {ps qs : Pairs}
    (h : ∀ u, (p, u) ∈ ps ↔ (p, u) ∈ qs) : ps.reviewersOf p = qs.reviewersOf p :=
  Identifier.setOf_ext fun u => mem_reviewersOf.trans ((h u).trans mem_reviewersOf.symm)

@[simp] theorem mem_reviewedBy {p u : Identifier} {ps : Pairs} :
    p ∈ ps.reviewedBy u ↔ (p, u) ∈ ps := by
  show _ ↔ (p, u) ∈ ps.list
  simp [reviewedBy]

theorem nodup_reviewedBy (u : Identifier) (ps : Pairs) : (ps.reviewedBy u).Nodup :=
  Identifier.nodup_setOf _

/-- The pull requests that a user reviews depend on his own pairs only. -/
theorem reviewedBy_congr {u : Identifier} {ps qs : Pairs}
    (h : ∀ p, (p, u) ∈ ps ↔ (p, u) ∈ qs) : ps.reviewedBy u = qs.reviewedBy u :=
  Identifier.setOf_ext fun p => mem_reviewedBy.trans ((h p).trans mem_reviewedBy.symm)

theorem reviewersOf_perm {p : Identifier} {ps : Pairs} {us : List Identifier} (hn : us.Nodup)
    (h : ∀ u, (p, u) ∈ ps ↔ u ∈ us) : (ps.reviewersOf p).Perm us := by
  rw [List.perm_ext_iff_of_nodup (nodup_reviewersOf p ps) hn]
  intro u
  rw [mem_reviewersOf, h u]

/-- The pairs with several reviewers of one pull request put in. -/
def insertAll (p : Identifier) (us : List Identifier) (ps : Pairs) : Pairs :=
  us.foldl (fun ps u => ps.insert (p, u)) ps

@[simp] theorem insertAll_nil (p : Identifier) (ps : Pairs) : ps.insertAll p [] = ps := rfl

@[simp] theorem insertAll_cons (p u : Identifier) (us : List Identifier) (ps : Pairs) :
    ps.insertAll p (u :: us) = (ps.insert (p, u)).insertAll p us := rfl

theorem mem_insertAll {p : Identifier} {us : List Identifier} {ps : Pairs}
    {q : Identifier × Identifier} :
    q ∈ ps.insertAll p us ↔ (q.1 = p ∧ q.2 ∈ us) ∨ q ∈ ps := by
  induction us generalizing ps with
  | nil => simp
  | cons u us ih =>
    rw [insertAll_cons, ih, mem_insert, Prod.ext_iff, List.mem_cons]
    tauto

end Pairs

/-! ## Tables -/

namespace Tables

theorem teamNamed?_eq_none {name : String} {t : Tables} :
    t.teamNamed? name = none ↔
      ∀ k team, t.teams.find? k = some team → team.name ≠ name := by
  simp only [teamNamed?, List.find?_eq_none, Ledger.mem_values, decide_eq_true_eq]
  constructor
  · intro h k team hk
    exact h team ⟨k, hk⟩
  · rintro h team ⟨k, hk⟩
    exact h k team hk

theorem usernameTaken_eq_false {u : User} {t : Tables} :
    t.usernameTaken u = false ↔
      ∀ k other, t.users.find? k = some other → other.id ≠ u.id →
        other.teamId = u.teamId → other.username ≠ u.username := by
  unfold usernameTaken
  rw [List.any_eq_false]
  simp only [Ledger.mem_values, Bool.and_eq_true, decide_eq_true_eq, not_and, and_imp]
  constructor
  · intro h k other hk hi ht
    exact h other ⟨k, hk⟩ hi ht
  · rintro h other ⟨k, hk⟩ hi ht
    exact h k other hk hi ht

theorem mem_usersOfTeam {teamId : Identifier} {t : Tables} {u : User} :
    u ∈ t.usersOfTeam teamId ↔ u ∈ t.users.values ∧ u.teamId = teamId := by
  simp [usersOfTeam]

theorem usersOfTeam_perm (teamId : Identifier) (t : Tables) :
    (t.usersOfTeam teamId).Perm (t.users.values.filter fun u => u.teamId = teamId) :=
  List.mergeSort_perm _ _

end Tables

end ReviewRota
