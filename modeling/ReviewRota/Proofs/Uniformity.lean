import Mathlib.Data.List.Permutation
import Mathlib.Data.Set.Card
import ReviewRota.Proofs.Selection

/-!
# Drawing is fair

A shuffle uses one draw for each position from the last down to the second, and at position `i` there
are `i + 1` draws to choose from. Different choices lead to different orders, and every order comes up;
so among all choices each selection of reviewers, in each order, comes up equally often, and each
replacement comes up once.
-/

namespace ReviewRota.Selection

open scoped Nat

variable {α : Type} {xs ys : List α} {ds : Draws} {i j k n : Nat}

/-! ## Vectors of draws -/

/-- A vector of draws for `n` things: one draw below `n`, one below `n - 1`, down to one below 2. -/
def Fits (n : Nat) (ds : Draws) : Prop :=
  ds.length = n - 1 ∧ ∀ j d, ds[j]? = some d → d < n - j

theorem fits_one : Fits 1 ds ↔ ds = [] := by
  constructor
  · rintro ⟨hlength, -⟩
    exact List.eq_nil_of_length_eq_zero hlength
  · rintro rfl
    exact ⟨rfl, by simp⟩

theorem fits_cons {d : Nat} : Fits (n + 2) (d :: ds) ↔ d < n + 2 ∧ Fits (n + 1) ds := by
  unfold Fits
  constructor
  · rintro ⟨hlength, hbelow⟩
    refine ⟨hbelow 0 d rfl, by simpa using hlength, fun j e he => ?_⟩
    have := hbelow (j + 1) e he
    omega
  · rintro ⟨hd, hlength, hbelow⟩
    refine ⟨by simpa using hlength, fun j e he => ?_⟩
    cases j with
    | zero =>
      cases he
      exact hd
    | succ j =>
      have := hbelow j e he
      omega

theorem Fits.exists_cons (h : Fits (n + 2) ds) : ∃ d rest, ds = d :: rest := by
  cases ds with
  | nil => simp [Fits] at h
  | cons d rest => exact ⟨d, rest, rfl⟩

/-! ## What an exchange does to positions -/

theorem length_exchange (xs : List α) (i j : Nat) : (exchange xs i j).length = xs.length :=
  (exchange_perm xs i j).length_eq

theorem getElem?_exchange (hi : i < xs.length) (hj : j < xs.length) (m : Nat) :
    (exchange xs i j)[m]? = if m = j then xs[i]? else if m = i then xs[j]? else xs[m]? := by
  have hexchange : exchange xs i j = (xs.set i xs[j]).set j xs[i] := by
    simp only [exchange, List.getElem?_eq_getElem hi, List.getElem?_eq_getElem hj]
  rw [hexchange]
  by_cases hmj : m = j
  · subst hmj
    rw [if_pos rfl, List.getElem?_set_self (by simpa using hj), List.getElem?_eq_getElem hi]
  · rw [if_neg hmj, List.getElem?_set_ne (Ne.symm hmj)]
    by_cases hmi : m = i
    · subst hmi
      rw [if_pos rfl, List.getElem?_set_self hi, List.getElem?_eq_getElem hj]
    · rw [if_neg hmi, List.getElem?_set_ne (Ne.symm hmi)]

/-- The exchanges that are still to come leave the positions above theirs alone. -/
theorem getElem?_shuffleFrom (hi : i < xs.length) (hds : Fits (i + 1) ds) (hm : i < k) :
    (shuffleFrom i xs ds)[k]? = xs[k]? := by
  induction i generalizing xs ds with
  | zero => rfl
  | succ i ih =>
    obtain ⟨d, rest, rfl⟩ := hds.exists_cons
    obtain ⟨hd, hrest⟩ := fits_cons.mp hds
    have hmod : d % (i + 2) = d := Nat.mod_eq_of_lt hd
    have hlength := length_exchange xs (i + 1) (d % (i + 2))
    show (shuffleFrom i (exchange xs (i + 1) (d % (i + 2))) rest)[k]? = _
    rw [ih (by omega) hrest (by omega), getElem?_exchange hi (by omega), if_neg (by omega),
      if_neg (by omega)]

/-! ## One vector for each order -/

/-- In the part that is still to be shuffled, what has to come to its last position stands in one
place. -/
theorem existsUnique_place (hn : xs.Nodup) (hp : ys.Perm xs) (hi : i < xs.length)
    (above : ∀ m, i < m → ys[m]? = xs[m]?) : ∃! d, d ≤ i ∧ xs[d]? = ys[i]? := by
  have hys : i < ys.length := hp.length_eq ▸ hi
  obtain ⟨d, hd, hplace⟩ := List.getElem_of_mem (hp.subset (List.getElem_mem hys))
  have hsome : xs[d]? = ys[i]? := by
    rw [List.getElem?_eq_getElem hd, List.getElem?_eq_getElem hys, hplace]
  refine ⟨d, ⟨?_, hsome⟩, ?_⟩
  · -- above, both lists are the same, and nothing stands in two places
    by_contra hlt
    have hsame : ys[i]? = ys[d]? := by rw [above d (by omega), hsome]
    have hid : i = d := (List.getElem?_inj hys (hp.nodup_iff.mpr hn)).mp hsame
    omega
  · rintro e ⟨-, he⟩
    exact ((List.getElem?_inj hd hn).mp (hsome.trans he.symm)).symm

/-- From a list without repetition the exchanges from a position downwards lead to every order that
agrees with it above that position, and they do so for one vector of draws. -/
theorem existsUnique_shuffleFrom (hn : xs.Nodup) (hp : ys.Perm xs) (hi : i < xs.length)
    (above : ∀ m, i < m → ys[m]? = xs[m]?) :
    ∃! ds, Fits (i + 1) ds ∧ shuffleFrom i xs ds = ys := by
  induction i generalizing xs with
  | zero =>
    obtain ⟨d, ⟨hd, hplace⟩, -⟩ := existsUnique_place hn hp hi above
    have heq : xs = ys := by
      apply List.ext_getElem?
      intro m
      cases m with
      | zero => rwa [Nat.le_zero.mp hd] at hplace
      | succ m => exact (above (m + 1) (Nat.succ_pos m)).symm
    exact ⟨[], ⟨fits_one.mpr rfl, heq⟩, fun ds h => fits_one.mp h.1⟩
  | succ i ih =>
    obtain ⟨d, ⟨hd, hplace⟩, hunique⟩ := existsUnique_place hn hp hi above
    have hmod : ∀ e, e ≤ i + 1 → e % (i + 2) = e := fun e he => Nat.mod_eq_of_lt (by omega)
    have hlength := length_exchange xs (i + 1) d
    have hperm := exchange_perm xs (i + 1) d
    -- one exchange puts the right thing into the last position, and the rest is the same task again
    have hagree : ∀ m, i < m → ys[m]? = (exchange xs (i + 1) d)[m]? := by
      intro m hm
      rw [getElem?_exchange hi (by omega)]
      split
      · rename_i he
        obtain rfl : d = i + 1 := by omega
        rw [he, hplace]
      · split
        · rename_i he
          rw [he, hplace]
        · exact above m (by omega)
    obtain ⟨ds, ⟨hds, hys⟩, hrest⟩ :=
      ih (hperm.nodup_iff.mpr hn) (hp.trans hperm.symm) (by omega) hagree
    refine ⟨d :: ds, ⟨fits_cons.mpr ⟨by omega, hds⟩, ?_⟩, ?_⟩
    · show shuffleFrom i (exchange xs (i + 1) (d % (i + 2))) ds = ys
      rw [hmod d hd, hys]
    · rintro es ⟨hes, hshuffled⟩
      obtain ⟨e, es, rfl⟩ := hes.exists_cons
      obtain ⟨he, hes⟩ := fits_cons.mp hes
      have hle : e ≤ i + 1 := by omega
      have hexchanged : shuffleFrom i (exchange xs (i + 1) e) es = ys := by
        rw [← hshuffled]
        show _ = shuffleFrom i (exchange xs (i + 1) (e % (i + 2))) es
        rw [hmod e hle]
      have hlast : xs[e]? = ys[i + 1]? := by
        have hlength := length_exchange xs (i + 1) e
        rw [← hexchanged, getElem?_shuffleFrom (by omega) hes (by omega),
          getElem?_exchange hi (by omega), if_pos rfl]
        split
        · rename_i he
          rw [he]
        · rfl
      obtain rfl : e = d := hunique e ⟨hle, hlast⟩
      rw [hrest es ⟨hes, hexchanged⟩]

theorem existsUnique_shuffle (hn : xs.Nodup) (hp : ys.Perm xs) :
    ∃! ds, Fits xs.length ds ∧ shuffle xs ds = ys := by
  cases xs with
  | nil =>
    obtain rfl := hp.eq_nil
    refine ⟨[], ⟨⟨rfl, by simp⟩, rfl⟩, ?_⟩
    rintro ds ⟨⟨hlength, -⟩, -⟩
    exact List.eq_nil_of_length_eq_zero hlength
  | cons x xs =>
    refine existsUnique_shuffleFrom (i := xs.length) hn hp (Nat.lt_succ_self _) fun m hm => ?_
    rw [List.getElem?_eq_none (by rw [hp.length_eq, List.length_cons]; omega),
      List.getElem?_eq_none (by rw [List.length_cons]; omega)]

/-! ## Counting -/

theorem ncard_perm (hn : xs.Nodup) : {ys : List α | ys.Perm xs}.ncard = xs.length ! := by
  classical
  have hset : {ys : List α | ys.Perm xs} = (xs.permutations.toFinset : Set (List α)) := by
    ext ys
    simp
  rw [hset, Set.ncard_coe_finset, List.toFinset_card_of_nodup (List.nodup_permutations xs hn),
    List.length_permutations]

/-- Shuffling takes the vectors of draws to the orders of the list, one to one. -/
theorem ncard_shuffle (hn : xs.Nodup) (P : List α → Prop) :
    {ds | Fits xs.length ds ∧ P (shuffle xs ds)}.ncard = {ys : List α | ys.Perm xs ∧ P ys}.ncard := by
  apply Set.ncard_congr fun ds _ => shuffle xs ds
  · rintro ds ⟨-, hP⟩
    exact ⟨shuffle_perm xs ds, hP⟩
  · rintro ds es ⟨hds, -⟩ ⟨hes, -⟩ he
    exact (existsUnique_shuffle hn (shuffle_perm xs ds)).unique ⟨hds, rfl⟩ ⟨hes, he.symm⟩
  · rintro ys ⟨hp, hP⟩
    obtain ⟨ds, ⟨hds, rfl⟩, -⟩ := existsUnique_shuffle hn hp
    exact ⟨ds, ⟨hds, hP⟩, rfl⟩

/-- Behind a given beginning what is left over stands in any order. -/
theorem ncard_perm_take {chosen : List α} (hn : xs.Nodup) (hc : chosen.Nodup)
    (hsub : chosen ⊆ xs) :
    {ys : List α | ys.Perm xs ∧ ys.take chosen.length = chosen}.ncard = (xs.length - chosen.length)! := by
  classical
  have hdiff : (chosen ++ xs.diff chosen).Perm xs :=
    List.subperm_append_diff_self_of_count_le (fun x hx => (hc.subperm hsub).count_le x)
  have hset : {ys : List α | ys.Perm xs ∧ ys.take chosen.length = chosen} =
      (chosen ++ ·) '' {zs | zs.Perm (xs.diff chosen)} := by
    ext ys
    constructor
    · rintro ⟨hp, htake⟩
      have hys : chosen ++ ys.drop chosen.length = ys := by
        calc chosen ++ ys.drop chosen.length
            = ys.take chosen.length ++ ys.drop chosen.length := by rw [htake]
          _ = ys := List.take_append_drop _ ys
      refine ⟨ys.drop chosen.length, ?_, hys⟩
      have hperm := hp.trans hdiff.symm
      rw [← hys] at hperm
      exact (List.perm_append_left_iff chosen).mp hperm
    · rintro ⟨zs, hp, rfl⟩
      exact ⟨(hp.append_left chosen).trans hdiff, List.take_left' rfl⟩
  have hlength : (xs.diff chosen).length = xs.length - chosen.length := by
    rw [← hdiff.length_eq, List.length_append, Nat.add_sub_cancel_left]
  rw [hset, Set.ncard_image_of_injective _ (List.append_right_injective chosen),
    ncard_perm (hn.diff), hlength]

/-- **Chance is fair.** Of the `n!` vectors of draws for `n` candidates, every selection of `k` of them
in every order is drawn by `(n - k)!`; and every candidate is drawn as a replacement by one of `n`
draws. -/
theorem drawn_evenly {candidates : List Identifier} (distinct : candidates.Nodup) :
    {ds | Fits candidates.length ds}.ncard = candidates.length ! ∧
    (∀ k ≤ candidates.length, ∀ chosen : List Identifier, chosen.length = k → chosen.Nodup →
      chosen ⊆ candidates →
        {ds | Fits candidates.length ds ∧ reviewers candidates k ds = chosen}.ncard =
          (candidates.length - k)!) ∧
    ∀ c ∈ candidates, ∃! d, d < candidates.length ∧ replacement candidates [d] = .ok c := by
  refine ⟨?_, ?_, ?_⟩
  · have hall := ncard_shuffle distinct fun _ => True
    simpa only [and_true, ncard_perm distinct] using hall
  · rintro k - chosen rfl hchosen hsub
    have hreviewers : ∀ ds, reviewers candidates chosen.length ds =
        (shuffle candidates ds).take chosen.length := by
      intro ds
      rw [reviewers, upTo, if_pos (Int.natCast_nonneg _), Int.toNat_natCast]
    simp only [hreviewers]
    rw [ncard_shuffle distinct fun ys => ys.take chosen.length = chosen,
      ncard_perm_take distinct hchosen hsub]
  · intro c hc
    have hdrawn : ∀ d, d < candidates.length →
        (replacement candidates [d] = .ok c ↔ candidates[d]? = some c) := by
      intro d hd
      have hmod : (below candidates.length [d]).1 = d := Nat.mod_eq_of_lt hd
      rw [replacement, hmod, List.getElem?_eq_getElem hd]
      simp
    obtain ⟨d, hd, hplace⟩ := List.getElem_of_mem hc
    have hsome : candidates[d]? = some c := by rw [List.getElem?_eq_getElem hd, hplace]
    refine ⟨d, ⟨hd, (hdrawn d hd).mpr hsome⟩, ?_⟩
    rintro e ⟨he, hdraw⟩
    exact (List.getElem?_inj he distinct).mp (((hdrawn e he).mp hdraw).trans hsome.symm)

/-- Of the six vectors for three candidates one draws the third and the first in this order. -/
theorem drawn_evenly_from_three :
    [Identifier.ofNat 1, .ofNat 2, .ofNat 3].Nodup ∧ {ds | Fits 3 ds}.ncard = 6 ∧
      {ds | Fits 3 ds ∧ reviewers [.ofNat 1, .ofNat 2, .ofNat 3] 2 ds = [.ofNat 3, .ofNat 1]}.ncard = 1 ∧
      ∃! d, d < 3 ∧ replacement [.ofNat 1, .ofNat 2, .ofNat 3] [d] = .ok (.ofNat 3) := by
  have distinct : [Identifier.ofNat 1, .ofNat 2, .ofNat 3].Nodup := by decide
  obtain ⟨hall, hselected, hreplaced⟩ := drawn_evenly distinct
  exact ⟨distinct, hall, hselected 2 (by decide) [.ofNat 3, .ofNat 1] rfl (by decide) (by decide),
    hreplaced (.ofNat 3) (by decide)⟩

end ReviewRota.Selection
