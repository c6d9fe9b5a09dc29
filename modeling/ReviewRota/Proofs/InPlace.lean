import ReviewRota.Proofs.Selection

/-!
# Drawing in place

Reviewers are drawn from a list in memory. The list of the candidates is copied, the copy is shuffled
in place, and what is handed out is a slice of the copy. An exchange of two elements fails when one of
its positions is not in the list.

For any candidates, draws and limit the drawing never fails, hands out what `reviewers` says, and
leaves every list that was in memory as it was.
-/

namespace ReviewRota.Selection

variable {α : Type}

/-! ## Lists in memory -/

/-- Lists in memory, each known by its place. A new list gets the next place. -/
abbrev Memory (α : Type) := List (List α)

/-- Two positions of a list exchanged in place. -/
def exchangeAt (place i j : Nat) (memory : Memory α) : Option (Memory α) := do
  let xs ← memory[place]?
  let a ← xs[i]?
  let b ← xs[j]?
  return memory.set place ((xs.set i b).set j a)

/-- The exchanges of a shuffle at position `i` and below it, made in place. -/
def shuffleAt (place : Nat) : Nat → Draws → Memory α → Option (Memory α)
  | 0, _, memory => some memory
  | i + 1, ds, memory => do
    let (j, rest) := below (i + 2) ds
    let memory ← exchangeAt place (i + 1) j memory
    shuffleAt place i rest memory

/-- Reviewers drawn from the list at a place, and the memory after that. -/
def drawAt (place : Nat) (limit : Int) (ds : Draws) (memory : Memory Identifier) :
    Option (List Identifier × Memory Identifier) := do
  let candidates ← memory[place]?
  let copied := memory ++ [candidates]
  let shuffled ← shuffleAt memory.length (candidates.length - 1) ds copied
  let pool ← shuffled[memory.length]?
  return (upTo limit pool, shuffled)

variable {memory : Memory α} {xs : List α} {i j : Nat}

theorem exchangeAt_last (hi : i < xs.length) (hj : j < xs.length) :
    exchangeAt memory.length i j (memory ++ [xs]) = some (memory ++ [exchange xs i j]) := by
  have hexchange : exchange xs i j = (xs.set i xs[j]).set j xs[i] := by
    simp only [exchange, List.getElem?_eq_getElem hi, List.getElem?_eq_getElem hj]
  simp [exchangeAt, hexchange, hi, hj]

/-- Every exchange of a shuffle is at two positions of the list. -/
theorem shuffleAt_last (hi : i ≤ xs.length - 1) (ds : Draws) :
    shuffleAt memory.length i ds (memory ++ [xs]) = some (memory ++ [shuffleFrom i xs ds]) := by
  induction i generalizing xs ds with
  | zero => rfl
  | succ i ih =>
    have hdrawn : (below (i + 2) ds).1 < i + 2 := below_lt (Nat.succ_pos _) ds
    have hlength : (exchange xs (i + 1) (below (i + 2) ds).1).length = xs.length :=
      (exchange_perm xs _ _).length_eq
    calc shuffleAt memory.length (i + 1) ds (memory ++ [xs])
        = (exchangeAt memory.length (i + 1) (below (i + 2) ds).1 (memory ++ [xs])).bind
            (shuffleAt memory.length i (below (i + 2) ds).2) := rfl
      _ = shuffleAt memory.length i (below (i + 2) ds).2
            (memory ++ [exchange xs (i + 1) (below (i + 2) ds).1]) := by
          rw [exchangeAt_last (by omega) (by omega), Option.bind_some]
      _ = some (memory ++ [shuffleFrom (i + 1) xs ds]) := ih (by omega) (below (i + 2) ds).2

theorem drawAt_eq {memory : Memory Identifier} {place : Nat} {candidates : List Identifier}
    (held : memory[place]? = some candidates) (limit : Int) (ds : Draws) :
    drawAt place limit ds memory =
      some (reviewers candidates limit ds, memory ++ [shuffle candidates ds]) := by
  have hshuffle : shuffleAt memory.length (candidates.length - 1) ds (memory ++ [candidates]) =
      some (memory ++ [shuffle candidates ds]) := shuffleAt_last (Nat.le_refl _) ds
  simp only [drawAt, held, Option.bind_eq_bind, Option.bind_some, hshuffle]
  simp [reviewers]

/-! ## Slices -/

/-- A negative limit leaves out that many elements, as far as there are any. -/
theorem length_slice (limit : Int) (xs : List α) :
    ((upTo limit xs).length : Int) =
      if 0 ≤ limit then min limit xs.length else max 0 (xs.length + limit) := by
  unfold upTo
  split <;> rw [List.length_take] <;> omega

/-- **Drawing takes a slice of the candidates in some order.** Whatever the draws and the limit are,
no exchange leaves the list that is shuffled, and the candidates stay in memory as they were, with
everything else there. -/
theorem drawn_in_place {memory : Memory Identifier} {place : Nat} {candidates : List Identifier}
    (held : memory[place]? = some candidates) (limit : Int) (ds : Draws) :
    ∃ chosen pool, reviewers candidates limit ds = chosen ∧
      drawAt place limit ds memory = some (chosen, memory ++ [pool]) ∧
      (memory ++ [pool])[place]? = some candidates ∧
      pool.Perm candidates ∧ chosen <+: pool ∧
      (chosen.length : Int) =
        (if 0 ≤ limit then min limit candidates.length else max 0 (candidates.length + limit)) ∧
      ∀ c, chosen.count c ≤ candidates.count c := by
  have hperm := shuffle_perm candidates ds
  have hprefix : reviewers candidates limit ds <+: shuffle candidates ds := upTo_isPrefix _ _
  obtain ⟨hplace, -⟩ := List.getElem?_eq_some_iff.mp held
  refine ⟨_, shuffle candidates ds, rfl, drawAt_eq held limit ds, ?_, hperm, hprefix, ?_, ?_⟩
  · rw [List.getElem?_append_left hplace, held]
  · rw [reviewers, length_slice, hperm.length_eq]
  · intro c
    calc (reviewers candidates limit ds).count c
        ≤ (shuffle candidates ds).count c := hprefix.sublist.count_le c
      _ = candidates.count c := hperm.count_eq c

/-- One draw for three candidates, two of them the same, and one to be left out at the end. -/
theorem drawn_in_place_short_of_draws :
    ([[], [Identifier.ofNat 1, .ofNat 1, .ofNat 2]] : Memory Identifier)[1]? =
        some [.ofNat 1, .ofNat 1, .ofNat 2] ∧
      ∃ chosen pool, reviewers [.ofNat 1, .ofNat 1, .ofNat 2] (-1) [7] = chosen ∧
        drawAt 1 (-1) [7] [[], [.ofNat 1, .ofNat 1, .ofNat 2]] =
          some (chosen, [[], [.ofNat 1, .ofNat 1, .ofNat 2], pool]) ∧
        pool.Perm [.ofNat 1, .ofNat 1, .ofNat 2] ∧ chosen <+: pool ∧ chosen.length = 2 := by
  have held : ([[], [Identifier.ofNat 1, .ofNat 1, .ofNat 2]] : Memory Identifier)[1]? =
      some [.ofNat 1, .ofNat 1, .ofNat 2] := rfl
  obtain ⟨chosen, pool, hchosen, hdrawn, -, hperm, hprefix, hlength, -⟩ := drawn_in_place held (-1) [7]
  exact ⟨held, chosen, pool, hchosen, hdrawn, hperm, hprefix, Int.ofNat_inj.mp (hlength.trans (by decide))⟩

end ReviewRota.Selection
