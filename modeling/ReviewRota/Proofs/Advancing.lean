import Mathlib.Logic.Relation
import ReviewRota.Proofs.Ensuring

/-!
# Exchanges step by step

An exchange that is held with the contents of a database advances from question to question. What is
asked next sees the contents with all that the exchange has written so far. An exchange that ensures
something can always advance until it is over, and ensures it all the way.
-/

namespace ReviewRota.Sql.Exchange

/-- How far an exchange has got: what is left of it, what the surroundings still hand out, and what
it has written. -/
structure Progress (α : Type) where
  rest : Exchange α
  supply : Supply
  writes : List Write := []

/-- One step of an exchange with the contents that others have left. -/
inductive Advances {α : Type} (d : Contents) : Progress α → Progress α → Prop where
  | note {e : Event} {rest : Exchange α} {supply : Supply} {ws : List Write} :
      Advances d ⟨.note e rest, supply, ws⟩ ⟨rest, supply, ws⟩
  | clock {next : Except Failure Instant → Exchange α} {supply : Supply} {ws : List Write} :
      Advances d ⟨.ask .clock next, supply, ws⟩
        ⟨next (.ok supply.readClock.1), supply.readClock.2, ws⟩
  | freshId {next : Except Failure Identifier → Exchange α} {supply : Supply} {ws : List Write} :
      Advances d ⟨.ask .freshId next, supply, ws⟩
        ⟨next (.ok supply.freshId.1), supply.freshId.2, ws⟩
  | send {mode : Mode} {st : Statement} {next : Scripted → Exchange α} {supply : Supply}
      {ws more : List Write} {a : Scripted} (executes : Executes (d.writeAll ws) mode st a more) :
      Advances d ⟨.ask (.send mode st) next, supply, ws⟩ ⟨next a, supply, ws ++ more⟩

/-- Any number of steps. -/
abbrev Reaches {α : Type} (d : Contents) : Progress α → Progress α → Prop :=
  Relation.ReflTransGen (Advances d)

/-- An exchange that is over. -/
def Progress.ended {α : Type} (r : Except Failure α) (supply : Supply) (ws : List Write) :
    Progress α := ⟨Dialogue.ofExcept r, supply, ws⟩

/-- What an exchange ensures from where it has got to. -/
def Progress.Ensures {α : Type} (d : Contents) (Q : Outcome α) (P : Progress α) : Prop :=
  ∃ t, (d.writeAll P.writes).Holds t ∧ Exchange.Ensures Q P.rest ⟨t, P.supply⟩ P.writes

namespace Progress

variable {α : Type} {d : Contents} {Q : Outcome α} {P P' : Progress α}

theorem writeAll_append (ws more : List Write) (d : Contents) :
    d.writeAll (ws ++ more) = (d.writeAll ws).writeAll more :=
  List.foldl_append

theorem Ensures.advance (h : P.Ensures d Q) (step : Advances d P P') : P'.Ensures d Q := by
  obtain ⟨t, ht, he⟩ := h
  cases step with
  | note => exact ⟨t, ht, he⟩
  | clock => exact ⟨t, ht, he⟩
  | freshId => exact ⟨t, ht, he⟩
  | send executes =>
    obtain ⟨t', ht', he'⟩ := he.2 _ _ _ ht executes
    refine ⟨t', ?_, he'⟩
    rwa [writeAll_append]

theorem Ensures.reach (h : P.Ensures d Q) (steps : Reaches d P P') : P'.Ensures d Q := by
  induction steps with
  | refl => exact h
  | tail _ step ih => exact ih.advance step

/-- What holds in the end. -/
theorem Ensures.end {r : Except Failure α} {supply : Supply} {ws : List Write}
    (h : (ended r supply ws).Ensures d Q) :
    ∃ t, (d.writeAll ws).Holds t ∧ Q r ⟨t, supply⟩ ws := by
  obtain ⟨t, ht, he⟩ := h
  refine ⟨t, ht, ?_⟩
  cases r <;> exact he

/-- An exchange that is not over can advance. -/
theorem Ensures.exists_advance (h : P.Ensures d Q) :
    (∃ r supply ws, P = ended r supply ws) ∨ ∃ P', Advances d P P' := by
  obtain ⟨rest, supply, ws⟩ := P
  obtain ⟨t, ht, he⟩ := h
  cases rest with
  | done a => exact Or.inl ⟨.ok a, supply, ws, rfl⟩
  | fail f => exact Or.inl ⟨.error f, supply, ws, rfl⟩
  | note e rest => exact Or.inr ⟨_, .note⟩
  | ask q next =>
    cases q with
    | clock => exact Or.inr ⟨_, .clock⟩
    | freshId => exact Or.inr ⟨_, .freshId⟩
    | send mode st =>
      obtain ⟨a, more, hexecutes⟩ := he.1 _ ht
      exact Or.inr ⟨_, .send hexecutes⟩

/-- Every exchange comes to its end. -/
theorem Ensures.exists_end (h : P.Ensures d Q) :
    ∃ r supply ws, Reaches d P (ended r supply ws) := by
  obtain ⟨rest, supply, ws⟩ := P
  induction rest generalizing supply ws with
  | done a => exact ⟨.ok a, supply, ws, .refl⟩
  | fail f => exact ⟨.error f, supply, ws, .refl⟩
  | note e rest ih =>
    obtain ⟨r, supply', ws', hsteps⟩ := ih _ _ (h.advance .note)
    exact ⟨r, supply', ws', .head .note hsteps⟩
  | ask q next ih =>
    -- the step that exists decides which reply the induction goes on with
    rcases h.exists_advance with ⟨r, supply', ws', he⟩ | ⟨P', hstep⟩
    · exact ⟨r, supply', ws', he ▸ .refl⟩
    · have hnext := h.advance hstep
      cases hstep with
      | clock =>
        obtain ⟨r, supply', ws', hsteps⟩ := ih _ _ _ hnext
        exact ⟨r, supply', ws', .head .clock hsteps⟩
      | freshId =>
        obtain ⟨r, supply', ws', hsteps⟩ := ih _ _ _ hnext
        exact ⟨r, supply', ws', .head .freshId hsteps⟩
      | send executes =>
        obtain ⟨r, supply', ws', hsteps⟩ := ih _ _ _ hnext
        exact ⟨r, supply', ws', .head (.send executes) hsteps⟩

end Progress

end ReviewRota.Sql.Exchange
