import ReviewRota.Proofs.Programs

/-!
# Two runs of a call

The same call held twice, in worlds that are not the same but alike in some respect. When the store
answers alike to all that the call asks, both runs come to the same and leave worlds that are alike
again. The respect is left open here: a relation of worlds that the requests of the call keep.
-/

namespace ReviewRota

/-- In worlds that are alike the store answers the same, and the worlds are alike afterwards. -/
def StoreCall.Respects (R : World → World → Prop) (q : StoreCall) : Prop :=
  ∀ w w', R w w' → (q.run w).1 = (q.run w').1 ∧ R (q.run w).2 (q.run w').2

namespace Program

variable {α β : Type} {R : World → World → Prop}

/-- In worlds that are alike a call comes to the same, and the worlds are alike afterwards. -/
def Respects (R : World → World → Prop) (p : Program α) : Prop :=
  ∀ w w', R w w' → (p.on w).1 = (p.on w').1 ∧ R (p.on w).2 (p.on w').2

theorem respects_done (a : α) : Respects R (.done a) := fun _ _ h => ⟨rfl, h⟩

theorem respects_fail (f : Failure) : Respects R (.fail f : Program α) := fun _ _ h => ⟨rfl, h⟩

theorem respects_ofExcept (r : Except Failure α) : Respects R (Dialogue.ofExcept r) := by
  cases r with
  | error f => exact respects_fail f
  | ok a => exact respects_done a

theorem Respects.note {rest : Program α} (h : rest.Respects R) (e : Event) :
    Respects R (.note e rest) := by
  intro w w' hw
  rw [on_note, on_note]
  exact h w w' hw

/-- A request, and how the call goes on with the replies that there can be. -/
theorem respects_ask {q : StoreCall} {next : Except Failure q.Reply → Program α}
    (hq : q.Respects R) (hnext : ∀ w w', R w w' → (next (q.run w).1).Respects R) :
    Respects R (.ask q next) := by
  intro w w' hw
  obtain ⟨hreply, hafter⟩ := hq w w' hw
  rw [on_ask, on_ask, ← hreply]
  exact hnext w w' hw _ _ hafter

/-- The rest of a call may rely on what the first part has come to. -/
theorem Respects.bind {p : Program α} {k : α → Program β} (hp : p.Respects R)
    (hk : ∀ a w w', R w w' → (p.on w).1 = .ok a → (k a).Respects R) : (p >>= k).Respects R := by
  intro w w' hw
  obtain ⟨hsame, hafter⟩ := hp w w' hw
  show (on (p.bind k) w).1 = (on (p.bind k) w').1 ∧ R (on (p.bind k) w).2 (on (p.bind k) w').2
  rw [on_bind, on_bind]
  rcases hfirst : p.on w with ⟨r, v⟩
  rcases hsecond : p.on w' with ⟨r', v'⟩
  rw [hfirst, hsecond] at hsame hafter
  obtain rfl : r = r' := hsame
  cases r with
  | error f => exact ⟨rfl, hafter⟩
  | ok a => exact hk a w w' hw (by rw [hfirst]) v v' hafter

variable {q : StoreCall}

theorem respects_put (hq : q.Respects R) : Respects R (StoreCall.put q) :=
  respects_ask hq fun _ _ _ => respects_ofExcept _

theorem respects_putOr (hq : q.Respects R) (reword : Failure → Failure) :
    Respects R (StoreCall.putOr q reword) :=
  respects_ask hq fun _ _ _ => respects_ofExcept _

/-- A call all of whose requests are answered alike is one itself. -/
theorem respects_of_all (h : ∀ q : StoreCall, q.Respects R) (p : Program α) : p.Respects R := by
  induction p with
  | done a => exact respects_done a
  | fail f => exact respects_fail f
  | note e rest ih => exact ih.note e
  | ask q next ih => exact respects_ask (h q) fun _ _ _ => ih _

theorem respects_each {f : β → Program α} {xs : List β} (h : ∀ x ∈ xs, (f x).Respects R) :
    Respects R (.each f xs) := by
  induction xs with
  | nil => exact respects_done []
  | cons x xs ih =>
    rw [List.forall_mem_cons] at h
    refine h.1.bind fun a _ _ _ _ => ?_
    exact (ih h.2).bind fun as _ _ _ _ => respects_done _

end Program

end ReviewRota
