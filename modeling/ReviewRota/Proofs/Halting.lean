import ReviewRota.Proofs.Constructs

/-!
# Dialogues that halt at a failure

A question that is answered with a failure is the last one, and the dialogue fails. The one failure
that can be survived is an absence, which the service itself reports; a database has no such failure.
-/

namespace ReviewRota

/-- Words other than its own make no absence of a failure that is none. -/
theorem Failure.Rewording.isA_eq_false {reword : Failure → Failure} (h : Rewording reword)
    {f : Failure} (hf : f.isA .notFound = false) : (reword f).isA .notFound = false := by
  cases h with
  | duplicate => cases f <;> exact hf
  | absent other =>
    unfold replacing
    rwa [if_neg (by simp [hf])]
  | taken present =>
    unfold replacing
    split
    · exact present
    · exact hf

namespace Dialogue

variable {Ask : Type} {Reply : Ask → Type} {α β : Type}

/-- A dialogue fails as soon as an answer is a failure and no absence, and with no absence either. -/
def Halts : Dialogue Ask Reply α → Prop
  | .done _ | .fail _ => True
  | .note _ rest => Halts rest
  | .ask _ next => (∀ f, f.isA .notFound = false →
      ∃ g, g.isA .notFound = false ∧ next (.error f) = .fail g) ∧ ∀ r, Halts (next r)

theorem halts_ofExcept (r : Except Failure α) : (ofExcept r : Dialogue Ask Reply α).Halts := by
  cases r <;> trivial

theorem Halts.bind {d : Dialogue Ask Reply α} {k : α → Dialogue Ask Reply β} (hd : d.Halts)
    (hk : ∀ a, (k a).Halts) : (d >>= k).Halts := by
  show (d.bind k).Halts
  induction d with
  | done a => exact hk a
  | fail f => trivial
  | note e rest ih => exact ih hd
  | ask q next ih =>
    refine ⟨fun f hf => ?_, fun r => ih r (hd.2 r)⟩
    obtain ⟨g, hg, hnext⟩ := hd.1 f hf
    exact ⟨g, hg, congrArg (Dialogue.bind · k) hnext⟩

/-- Going on with the outcome of a dialogue halts if a failure is passed on. -/
theorem Halts.settle {d : Dialogue Ask Reply α} {k : Except Failure α → Dialogue Ask Reply β}
    (hd : d.Halts) (hk : ∀ r, (k r).Halts)
    (hpassed : ∀ f, f.isA .notFound = false →
      ∃ g, g.isA .notFound = false ∧ k (.error f) = .fail g) : (d.settle k).Halts := by
  induction d with
  | done a => exact hk _
  | fail f => exact hk _
  | note e rest ih => exact ih hd
  | ask q next ih =>
    refine ⟨fun f hf => ?_, fun r => ih r (hd.2 r)⟩
    obtain ⟨g, hg, hnext⟩ := hd.1 f hf
    obtain ⟨g', hg', hk'⟩ := hpassed g hg
    exact ⟨g', hg', (congrArg (Dialogue.settle · k) hnext).trans hk'⟩

/-- Every construct halts. -/
theorem closed_halts : @Closed Ask Reply Halts where
  ofExcept := halts_ofExcept
  note e _ hd := hd
  bind := Halts.bind
  ask q next hok habsent hpassed := by
    refine ⟨fun f hf => ⟨f, hf, hpassed f hf⟩, fun r => ?_⟩
    rcases r with f | a
    · cases hf : f.isA .notFound with
      | true => exact habsent f hf
      | false =>
        rw [hpassed f hf]
        trivial
    · exact hok a
  putOr q _ hreword :=
    ⟨fun f hf => ⟨_, hreword.isA_eq_false hf, rfl⟩, fun _ => halts_ofExcept _⟩

/-- A dialogue whose questions are dialogues that halt. -/
theorem Halts.refine {Fine : Type} {FineReply : Fine → Type}
    {f : (q : Ask) → Dialogue Fine FineReply (Reply q)} (hf : ∀ q, (f q).Halts)
    {d : Dialogue Ask Reply α} (hd : d.Halts) : (d.refine f).Halts := by
  induction d with
  | done a => trivial
  | fail f => trivial
  | note e rest ih => exact ih hd
  | ask q next ih =>
    refine (hf q).settle (fun r => ih r (hd.2 r)) fun e he => ?_
    obtain ⟨g, hg, hnext⟩ := hd.1 e he
    exact ⟨g, hg, congrArg (Dialogue.refine f) hnext⟩

end Dialogue

/-- Over a connection a command halts at the first failure. -/
theorem Command.halts_exchange (c : Command) : (c.program.refine Sql.perform).Halts :=
  (Dialogue.closed_halts.command c).refine Dialogue.closed_halts.perform

end ReviewRota
