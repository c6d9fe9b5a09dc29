import ReviewRota.Proofs.Constructs

/-!
# Texts of failures make no difference

The service tells its own refusals apart, and duplicates from everything else; beyond that it takes
no notice of a failure. So a dialogue goes the same way twice when its answers differ in nothing but
what failures from below are and say. No construct of a dialogue takes notice of more, and so all
exchanges and all calls of the service are discreet.
-/

namespace ReviewRota

namespace Failure

/-- A failure from below that is no duplicate. -/
def IsOther : Failure → Prop
  | refused _ | duplicate _ => False
  | _ => True

/-- Failures that the service does not tell apart: a refusal is like itself only, a duplicate like
any duplicate, and any other failure like any other. -/
inductive Alike : Failure → Failure → Prop where
  | refused (r : Refusal) : Alike (.refused r) (.refused r)
  | duplicate (text text' : String) : Alike (.duplicate text) (.duplicate text')
  | other {f f' : Failure} (left : f.IsOther) (right : f'.IsOther) : Alike f f'

theorem Alike.refl (f : Failure) : f.Alike f := by
  cases f with
  | refused r => exact .refused r
  | duplicate text => exact .duplicate text text
  | _ => exact .other trivial trivial

/-- A failure from below is no refusal. -/
theorem IsOther.isA_eq {f : Failure} (h : f.IsOther) (kind : RefusalKind) : f.isA kind = false := by
  cases f <;> first | rfl | exact h.elim

/-- Failures that are alike are refusals of the same kinds. -/
theorem Alike.isA_eq {f f' : Failure} (h : f.Alike f') (kind : RefusalKind) :
    f.isA kind = f'.isA kind := by
  cases h with
  | refused r => rfl
  | duplicate text text' => rfl
  | other left right => rw [left.isA_eq, right.isA_eq]

/-- Putting a refusal in the place of another one keeps failures alike. -/
theorem Alike.replacing {f f' : Failure} (h : f.Alike f') (kind : RefusalKind) (other : Failure) :
    (replacing kind other f).Alike (replacing kind other f') := by
  unfold Failure.replacing
  rw [h.isA_eq]
  split
  · exact .refl other
  · exact h

/-- Failures that are alike are passed on in words that are alike. -/
theorem Alike.rewording {f f' : Failure} (h : f.Alike f') {reword : Failure → Failure}
    (hreword : Rewording reword) : (reword f).Alike (reword f') := by
  cases hreword with
  | absent other => exact h.replacing _ other
  | taken => exact h.replacing _ _
  | duplicate =>
    cases h with
    | refused r => exact .refused r
    | duplicate text text' => exact .refused _
    | other left right =>
      refine .other ?_ ?_
      · cases f <;> first | exact trivial | exact left.elim
      · cases f' <;> first | exact trivial | exact right.elim

end Failure

/-- The same value twice, or failures that are alike. -/
inductive AlikeOutcomes {α : Type} : Except Failure α → Except Failure α → Prop where
  | ok (a : α) : AlikeOutcomes (.ok a) (.ok a)
  | error {f f' : Failure} (h : f.Alike f') : AlikeOutcomes (.error f) (.error f')

theorem AlikeOutcomes.refl {α : Type} (r : Except Failure α) : AlikeOutcomes r r := by
  cases r with
  | ok a => exact .ok a
  | error f => exact .error (.refl f)

theorem AlikeOutcomes.mapError {α : Type} {r r' : Except Failure α} (h : AlikeOutcomes r r')
    {reword : Failure → Failure} (hreword : ∀ f f', f.Alike f' → (reword f).Alike (reword f')) :
    AlikeOutcomes (r.mapError reword) (r'.mapError reword) := by
  cases h with
  | ok a => exact .ok a
  | error h => exact .error (hreword _ _ h)

namespace Dialogue

variable {Ask : Type} {Reply : Ask → Type} {α β : Type}

/-- Dialogues that ask the same, report the same and come to outcomes that are alike, as long as the
answers are alike. -/
inductive Alike : Dialogue Ask Reply α → Dialogue Ask Reply α → Prop where
  | done (a : α) : Alike (.done a) (.done a)
  | fail {f f' : Failure} (h : f.Alike f') : Alike (.fail f) (.fail f')
  | note (e : Event) {d d' : Dialogue Ask Reply α} (h : Alike d d') : Alike (.note e d) (.note e d')
  | ask (q : Ask) {next next' : Except Failure (Reply q) → Dialogue Ask Reply α}
      (h : ∀ r r', AlikeOutcomes r r' → Alike (next r) (next' r')) :
      Alike (.ask q next) (.ask q next')

/-- The texts of failures make no difference to a dialogue. -/
def Discreet (d : Dialogue Ask Reply α) : Prop := d.Alike d

theorem alike_ofExcept {r r' : Except Failure α} (h : AlikeOutcomes r r') :
    Alike (ofExcept r : Dialogue Ask Reply α) (ofExcept r') := by
  cases h with
  | ok a => exact .done a
  | error h => exact .fail h

theorem Alike.bind {d d' : Dialogue Ask Reply α} {k k' : α → Dialogue Ask Reply β} (hd : d.Alike d')
    (hk : ∀ a, (k a).Alike (k' a)) : Alike (d >>= k) (d' >>= k') := by
  induction hd with
  | done a => exact hk a
  | fail h => exact .fail h
  | note e _ ih => exact .note e ih
  | ask q _ ih => exact .ask q ih

/-- A question is discreet unless it tells failures apart that are not absences. -/
theorem discreet_ask (q : Ask) {next : Except Failure (Reply q) → Dialogue Ask Reply α}
    (hok : ∀ a, (next (.ok a)).Discreet)
    (habsent : ∀ f, f.isA .notFound = true → (next (.error f)).Discreet)
    (hpassed : ∀ f, f.isA .notFound = false → next (.error f) = .fail f) :
    (ask q next).Discreet := by
  have hpassed' : ∀ f f' : Failure, f.Alike f' → f.isA .notFound = false →
      (next (.error f)).Alike (next (.error f')) := by
    intro f f' h hf
    rw [hpassed f hf, hpassed f' (h.isA_eq _ ▸ hf)]
    exact .fail h
  refine .ask q fun r r' h => ?_
  cases h with
  | ok a => exact hok a
  | @error f f' h =>
    cases hf : f.isA .notFound with
    | false => exact hpassed' f f' h hf
    | true =>
      -- an absence is a refusal, and a refusal is like itself only
      cases h with
      | refused refusal => exact habsent _ hf
      | duplicate text text' => cases hf
      | other left right => rw [left.isA_eq] at hf; cases hf

theorem discreet_putOr (q : Ask) {reword : Failure → Failure} (h : Failure.Rewording reword) :
    (putOr q reword : Dialogue Ask Reply (Reply q)).Discreet :=
  .ask q fun _ _ hr => alike_ofExcept (hr.mapError fun _ _ hf => hf.rewording h)

/-- No construct takes notice of the texts of failures. -/
theorem closed_discreet : @Closed Ask Reply Discreet where
  ofExcept r := alike_ofExcept (.refl r)
  note e _ hd := .note e hd
  bind := Alike.bind
  ask q _ := discreet_ask q
  putOr := discreet_putOr

end Dialogue

open Dialogue (closed_discreet)

/-- The statements of every request are sent discreetly. -/
theorem Sql.discreet_perform (c : StoreCall) : (Sql.perform c).Discreet :=
  closed_discreet.perform c

theorem Command.discreet_program (c : Command) : c.program.Discreet := closed_discreet.command c

theorem Query.discreet_program (q : Query) : q.program.Discreet := closed_discreet.query q

end ReviewRota
