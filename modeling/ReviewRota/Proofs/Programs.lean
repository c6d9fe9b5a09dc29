import ReviewRota.Operation
import ReviewRota.Proofs.Contents

/-!
# Calls on tables alone

What the dialogue of a call comes to when tables answer it, without a transaction around it: `on`
is `run` without the events. The laws below carry a call out step by step, with the reply of every
request read off the tables.
-/

namespace ReviewRota

namespace Failure

theorem replacing_of_isA {kind : RefusalKind} {f : Failure} (h : f.isA kind = true)
    (other : Failure) : replacing kind other f = other := by
  rw [replacing, if_pos h]

end Failure

namespace Program

variable {α β : Type}

/-- What a call comes to on tables, and what it makes of them. -/
def on (p : Program α) (w : World) : Except Failure α × World :=
  ((p.run ⟨w, []⟩).1, (p.run ⟨w, []⟩).2.world)

/-- The events before a call have no influence on it. -/
theorem run_eq_on (p : Program α) (a : Account) :
    (p.run a).1 = (p.on a.world).1 ∧ (p.run a).2.world = (p.on a.world).2 := by
  -- the statement for two lists of events, since the induction lengthens both
  have key : ∀ (p : Program α) (w : World) (es fs : List Event),
      (p.run ⟨w, es⟩).1 = (p.run ⟨w, fs⟩).1 ∧
        (p.run ⟨w, es⟩).2.world = (p.run ⟨w, fs⟩).2.world := by
    intro p
    induction p with
    | done x =>
      intro w es fs
      exact ⟨rfl, rfl⟩
    | fail f =>
      intro w es fs
      exact ⟨rfl, rfl⟩
    | note e rest ih =>
      intro w es fs
      exact ih w (es ++ [e]) (fs ++ [e])
    | ask q next ih =>
      intro w es fs
      exact ih (q.run w).1 (q.run w).2 es fs
  exact key p a.world a.events []

/-- A call only adds to the events. -/
theorem exists_events (p : Program α) (a : Account) :
    ∃ es, (p.run a).2.events = a.events ++ es := by
  induction p generalizing a with
  | done x => exact ⟨[], (List.append_nil _).symm⟩
  | fail f => exact ⟨[], (List.append_nil _).symm⟩
  | note e rest ih =>
    obtain ⟨es, hes⟩ := ih { a with events := a.events ++ [e] }
    exact ⟨e :: es, hes.trans (List.append_assoc _ _ _)⟩
  | ask q next ih => exact ih (q.run a.world).1 { a with world := (q.run a.world).2 }

@[simp] theorem on_done (a : α) (w : World) : on (.done a) w = (.ok a, w) := rfl

@[simp] theorem on_fail (f : Failure) (w : World) :
    on (.fail f : Program α) w = (.error f, w) := rfl

@[simp] theorem on_note (e : Event) (rest : Program α) (w : World) :
    on (.note e rest) w = rest.on w := by
  obtain ⟨hanswer, hworld⟩ := run_eq_on rest ⟨w, [e]⟩
  exact Prod.ext hanswer hworld

@[simp] theorem on_ask (q : StoreCall) (next : Except Failure q.Reply → Program α) (w : World) :
    on (.ask q next) w = (next (q.run w).1).on (q.run w).2 := rfl

@[simp] theorem on_pure (a : α) (w : World) : on (pure a) w = (.ok a, w) := rfl

@[simp] theorem on_ofExcept (r : Except Failure α) (w : World) :
    on (Dialogue.ofExcept r) w = (r, w) := by
  cases r <;> rfl

theorem on_put (q : StoreCall) (w : World) : on (StoreCall.put q) w = q.run w := by
  simp [StoreCall.put, Dialogue.put]

theorem on_putOr_of_ok {q : StoreCall} {w w' : World} {a : q.Reply} (h : q.run w = (.ok a, w'))
    (reword : Failure → Failure) : on (StoreCall.putOr q reword) w = (.ok a, w') := by
  simp [StoreCall.putOr, Dialogue.putOr, h, Except.mapError]

theorem on_putOr_of_error {q : StoreCall} {w w' : World} {f : Failure}
    (h : q.run w = (.error f, w')) (reword : Failure → Failure) :
    on (StoreCall.putOr q reword) w = (.error (reword f), w') := by
  simp [StoreCall.putOr, Dialogue.putOr, h, Except.mapError]

/-- A refusal of the expected kind is passed on in the words of the call. -/
theorem on_putOr_of_refused {q : StoreCall} {w w' : World} {f : Failure} {kind : RefusalKind}
    (h : q.run w = (.error f, w')) (hf : f.isA kind = true) (other : Failure) :
    on (StoreCall.putOr q (Failure.replacing kind other)) w = (.error other, w') := by
  rw [on_putOr_of_error h, Failure.replacing_of_isA hf]

theorem on_bind (p : Program α) (k : α → Program β) (w : World) :
    on (p.bind k) w = match p.on w with
      | (.ok a, w) => (k a).on w
      | (.error f, w) => (.error f, w) := by
  induction p generalizing w with
  | done a => rfl
  | fail f => rfl
  | note e rest ih =>
    rw [Dialogue.bind, on_note, on_note, ih]
  | ask q next ih =>
    rw [Dialogue.bind, on_ask, on_ask, ih]

/-- A step that goes well is followed by the rest of the call. -/
theorem on_bind_of_ok {p : Program α} {w w' : World} {a : α} (h : p.on w = (.ok a, w'))
    (k : α → Program β) : on (p >>= k) w = (k a).on w' := by
  show on (p.bind k) w = _
  rw [on_bind, h]

/-- A step that fails is the end of the call. -/
theorem on_bind_of_error {p : Program α} {w w' : World} {f : Failure}
    (h : p.on w = (.error f, w')) (k : α → Program β) : on (p >>= k) w = (.error f, w') := by
  show on (p.bind k) w = _
  rw [on_bind, h]

/-- What goes well as a whole goes well step by step. -/
theorem on_bind_eq_ok {p : Program α} {k : α → Program β} {b : β} {w w'' : World} :
    on (p >>= k) w = (.ok b, w'') ↔ ∃ a w', p.on w = (.ok a, w') ∧ (k a).on w' = (.ok b, w'') := by
  constructor
  · intro h
    cases hon : p.on w with
    | mk r w' =>
      cases r with
      | ok a => exact ⟨a, w', rfl, (on_bind_of_ok hon k).symm.trans h⟩
      | error f => exact nomatch (on_bind_of_error hon k).symm.trans h
  · rintro ⟨a, w', ha, hb⟩
    exact (on_bind_of_ok ha k).trans hb

theorem on_each_cons_of_ok {f : β → Program α} {x : β} {xs : List β} {a : α} {as : List α}
    {w w' w'' : World} (h : (f x).on w = (.ok a, w')) (hs : on (.each f xs) w' = (.ok as, w'')) :
    on (.each f (x :: xs)) w = (.ok (a :: as), w'') := by
  rw [Dialogue.each, on_bind, h]
  show on ((Dialogue.each f xs).bind _) w' = _
  rw [on_bind, hs]
  rfl

end Program

end ReviewRota
