import ReviewRota.Event
import ReviewRota.Failure

/-!
# Dialogues

A call of the service as a value: what it asks of the store, and how it goes on with each possible
reply. The same dialogue is held with tables in memory, with a database, or step by step with other
calls in between. A reply can be a failure; the dialogue itself says whether it survives that.

The main statements are the laws of sequencing, and that putting dialogues in the place of
questions commutes with sequencing.
-/

namespace ReviewRota

/-- A call that asks questions `Ask`, each with replies of its own type, and ends with a value, ends
with a failure, or reports an event and goes on. -/
inductive Dialogue (Ask : Type) (Reply : Ask → Type) (α : Type) where
  | done (a : α)
  | fail (f : Failure)
  | note (e : Event) (rest : Dialogue Ask Reply α)
  | ask (q : Ask) (next : Except Failure (Reply q) → Dialogue Ask Reply α)

namespace Dialogue

variable {Ask : Type} {Reply : Ask → Type} {α β γ : Type}

/-- Hold one dialogue and then another, which depends on the value of the first. -/
def bind : Dialogue Ask Reply α → (α → Dialogue Ask Reply β) → Dialogue Ask Reply β
  | done a, k => k a
  | fail f, _ => fail f
  | note e rest, k => note e (rest.bind k)
  | ask q next, k => ask q fun r => (next r).bind k

/-- Sequencing of dialogues. A failure ends the sequence. -/
instance : Monad (Dialogue Ask Reply) where
  pure := done
  bind := bind

/-- Hold a dialogue and go on with its outcome, be it a value or a failure. -/
def settle : Dialogue Ask Reply α → (Except Failure α → Dialogue Ask Reply β) → Dialogue Ask Reply β
  | done a, k => k (.ok a)
  | fail f, k => k (.error f)
  | note e rest, k => note e (rest.settle k)
  | ask q next, k => ask q fun r => (next r).settle k

/-- A value or a failure as the end of a dialogue. -/
def ofExcept : Except Failure α → Dialogue Ask Reply α
  | .ok a => done a
  | .error f => fail f

/-- A question whose failures are passed on. -/
def put (q : Ask) : Dialogue Ask Reply (Reply q) := ask q ofExcept

/-- A question whose failures are passed on in other words. -/
def putOr (q : Ask) (reword : Failure → Failure) : Dialogue Ask Reply (Reply q) :=
  ask q fun r => ofExcept (r.mapError reword)

/-- One dialogue for each element of a list, in order. -/
def each (f : β → Dialogue Ask Reply α) : List β → Dialogue Ask Reply (List α)
  | [] => done []
  | x :: xs => (f x).bind fun a => (each f xs).bind fun as => done (a :: as)

/-- Put a dialogue of a finer kind in the place of every question. -/
def refine {Fine : Type} {FineReply : Fine → Type} (f : (q : Ask) → Dialogue Fine FineReply (Reply q)) :
    Dialogue Ask Reply α → Dialogue Fine FineReply α
  | done a => done a
  | fail e => fail e
  | note e rest => note e (rest.refine f)
  | ask q next => (f q).settle fun r => (next r).refine f

/-- Hold a dialogue with someone who answers every question. -/
def hold {m : Type → Type} [Monad m] (answer : (q : Ask) → m (Except Failure (Reply q)))
    (report : Event → m Unit) : Dialogue Ask Reply α → m (Except Failure α)
  | done a => pure (.ok a)
  | fail f => pure (.error f)
  | note e rest => do
    report e
    rest.hold answer report
  | ask q next => do
    let r ← answer q
    (next r).hold answer report

@[simp] theorem bind_done (d : Dialogue Ask Reply α) : d.bind done = d := by
  induction d with
  | done a => rfl
  | fail f => rfl
  | note e rest ih => simp [bind, ih]
  | ask q next ih => simp [bind, ih]

theorem settle_settle (d : Dialogue Ask Reply α) (k : Except Failure α → Dialogue Ask Reply β)
    (l : Except Failure β → Dialogue Ask Reply γ) :
    (d.settle k).settle l = d.settle fun r => (k r).settle l := by
  induction d with
  | done a => rfl
  | fail f => rfl
  | note e rest ih => simp [settle, ih]
  | ask q next ih => simp [settle, ih]

/-- Going on with values only is going on with outcomes and passing failures on. -/
theorem bind_eq_settle (d : Dialogue Ask Reply α) (k : α → Dialogue Ask Reply β) :
    d.bind k = d.settle fun r => match r with
      | .ok a => k a
      | .error f => fail f := by
  induction d with
  | done a => rfl
  | fail f => rfl
  | note e rest ih => simp [bind, settle, ih]
  | ask q next ih => simp [bind, settle, ih]

end Dialogue

end ReviewRota
