import ReviewRota.Proofs.Connected
import ReviewRota.Proofs.Halting

/-!
# Logs of exchanges

What an exchange sends and what it is answered, with nothing assumed about the answers: rows may be
of any kind or missing, and every statement may fail. What an exchange secures about its log and its
outcome holds over every connection, and after a failure nothing more is sent.
-/

namespace ReviewRota

namespace Sql

/-- A statement that was sent, with its answer. -/
structure Sent where
  mode : Mode
  statement : Statement
  reply : Scripted

def Sent.action (x : Sent) : Action := .send x.mode x.statement

/-- The answers in a log are those that were laid down, in order, and none is left out. -/
def Answered : List Scripted → List Sent → Prop
  | _, [] => True
  | script, x :: log => x.reply = script.headD (.ok .nothing) ∧ Answered script.tail log

/-- A statement that fails is the last one, and the outcome is a failure too. The exception is the
refusal `notFound`, which is the service's own and no failure of a connection. -/
def HaltsIn {α : Type} (log : List Sent) (r : Except Failure α) : Prop :=
  ∀ before x after f, log = before ++ x :: after → x.reply = .error f →
    f.isA .notFound = false → after = [] ∧ ∃ g, r = .error g

namespace Exchange

variable {α β : Type}

/-- However an exchange is answered, the log in the end, which goes on from a log, and the outcome
have a property. -/
def Secures (Q : List Sent → Except Failure α → Prop) : Exchange α → List Sent → Prop
  | .done a, log => Q log (.ok a)
  | .fail f, log => Q log (.error f)
  | .note _ rest, log => Secures Q rest log
  | .ask .clock next, log => ∀ now, Secures Q (next (.ok now)) log
  | .ask .freshId next, log => ∀ id, Secures Q (next (.ok id)) log
  | .ask (.send mode st) next, log => ∀ a, Secures Q (next a) (log ++ [⟨mode, st, a⟩])

section Rules

variable {Q R : List Sent → Except Failure α → Prop} {e : Exchange α} {log : List Sent}

@[simp] theorem secures_ofExcept {r : Except Failure α} :
    Secures Q (Dialogue.ofExcept r) log ↔ Q log r := by
  cases r <;> rfl

/-- What follows from two things that are secured is secured. -/
theorem Secures.combine {S : List Sent → Except Failure α → Prop} (hQ : e.Secures Q log)
    (hR : e.Secures R log) (h : ∀ log r, Q log r → R log r → S log r) : e.Secures S log := by
  induction e generalizing log with
  | done a => exact h _ _ hQ hR
  | fail f => exact h _ _ hQ hR
  | note e rest ih => exact ih hQ hR
  | ask q next ih =>
    cases q with
    | clock => exact fun now => ih _ (hQ now) (hR now)
    | freshId => exact fun id => ih _ (hQ id) (hR id)
    | send mode st => exact fun a => ih _ (hQ a) (hR a)

theorem Secures.mono (hQ : e.Secures Q log) (h : ∀ log r, Q log r → R log r) : e.Secures R log :=
  hQ.combine hQ fun log r hq _ => h log r hq

/-- An exchange hands on what it secures to what follows its outcome. -/
theorem Secures.settle {S : List Sent → Except Failure β → Prop} {k : Except Failure α → Exchange β}
    (h : e.Secures Q log) (hk : ∀ log r, Q log r → (k r).Secures S log) :
    Secures S (e.settle k) log := by
  induction e generalizing log with
  | done a => exact hk _ _ h
  | fail f => exact hk _ _ h
  | note e rest ih => exact ih h
  | ask q next ih =>
    cases q with
    | clock => exact fun now => ih _ (h now)
    | freshId => exact fun id => ih _ (h id)
    | send mode st => exact fun a => ih _ (h a)

end Rules

/-- A log has gone on with one statement, and the outcome is a failure or a value that is in order
for the answer. -/
inductive Fetched (log : List Sent) (mode : Mode) (st : Statement) (P : Answer → α → Prop) :
    List Sent → Except Failure α → Prop where
  | error (a : Scripted) (f : Failure) : Fetched log mode st P (log ++ [⟨mode, st, a⟩]) (.error f)
  | ok {b : Answer} {x : α} (h : P b x) : Fetched log mode st P (log ++ [⟨mode, st, .ok b⟩]) (.ok x)

/-- An exchange of one statement, after whose answer nothing more is asked. -/
theorem secures_fetched {mode : Mode} {st : Statement} {P : Answer → α → Prop}
    {read : Answer → Exchange α} (ends : ∀ b, ∃ r, read b = Dialogue.ofExcept r)
    (hread : ∀ b x, read b = .done x → P b x) (log : List Sent) :
    Secures (Fetched log mode st P) (send mode st >>= read) log := by
  intro a
  cases a with
  | error f => exact .error _ f
  | ok b =>
    obtain ⟨r, hr⟩ := ends b
    show Secures _ (read b) _
    rw [hr, secures_ofExcept]
    cases r with
    | error f => exact .error _ f
    | ok x => exact .ok (hread b x hr)

section Calls

variable {q : StoreCall} {Q : List Sent → Except Failure q.Reply → Prop} {log : List Sent}
  {S : List Sent → Except Failure β → Prop}

theorem secures_ask {next : Except Failure q.Reply → Program β} (h : (perform q).Secures Q log)
    (hok : ∀ log a, Q log (.ok a) → Secures S ((next (.ok a)).refine perform) log)
    (herror : ∀ log f, Q log (.error f) → Secures S ((next (.error f)).refine perform) log) :
    Secures S (Dialogue.refine perform (.ask q next)) log := by
  refine h.settle fun log r hr => ?_
  cases r with
  | ok a => exact hok log a hr
  | error f => exact herror log f hr

/-- A request of a call, whose failure is the end of the call. -/
theorem secures_put_bind {k : q.Reply → Program β} (h : (perform q).Secures Q log)
    (herror : ∀ log f g, Q log (.error f) → S log (.error g))
    (hok : ∀ log a, Q log (.ok a) → Secures S ((k a).refine perform) log) :
    Secures S ((StoreCall.put q >>= k).refine perform) log :=
  secures_ask h hok fun log f hf => herror log f f hf

/-- A request of a call, whose failure is the end of the call in other words. -/
theorem secures_putOr_bind {k : q.Reply → Program β} {reword : Failure → Failure}
    (h : (perform q).Secures Q log) (herror : ∀ log f g, Q log (.error f) → S log (.error g))
    (hok : ∀ log a, Q log (.ok a) → Secures S ((k a).refine perform) log) :
    Secures S ((StoreCall.putOr q reword >>= k).refine perform) log :=
  secures_ask h hok fun log f hf => herror log f (reword f) hf

/-- A request at the end of a call. -/
theorem secures_putOr {T : List Sent → Except Failure q.Reply → Prop} {reword : Failure → Failure}
    (h : (perform q).Secures Q log) (hend : ∀ log r r', Q log r → T log r') :
    Secures T ((StoreCall.putOr q reword).refine perform) log :=
  secures_ask h (fun log a ha => hend log _ (.ok a) ha)
    fun log f hf => hend log _ (.error (reword f)) hf

end Calls

/-- No statement of a log has failed otherwise than by an absence. -/
def Undisturbed (log : List Sent) : Prop :=
  ∀ x ∈ log, ∀ f, x.reply = .error f → f.isA .notFound = true

theorem Undisturbed.haltsIn {log : List Sent} (h : Undisturbed log) (r : Except Failure α) :
    HaltsIn log r := by
  rintro before x after f rfl hx hf
  have habsent := h x (by simp) f hx
  rw [hf] at habsent
  cases habsent

theorem Undisturbed.concat {log : List Sent} {x : Sent} (h : Undisturbed log)
    (hx : ∀ f, x.reply = .error f → f.isA .notFound = true) : Undisturbed (log ++ [x]) := by
  intro y hy
  rcases List.mem_append.mp hy with hy | hy
  · exact h y hy
  · obtain rfl := List.mem_singleton.mp hy
    exact hx

/-- A failure at the end of a log is the only one. -/
theorem Undisturbed.haltsIn_concat {log : List Sent} (h : Undisturbed log) (x : Sent) (g : Failure) :
    HaltsIn (log ++ [x]) (.error g : Except Failure α) := by
  intro before y after f hlog hy hf
  refine ⟨?_, g, rfl⟩
  rcases List.eq_nil_or_concat after with hafter | ⟨after, z, rfl⟩
  · exact hafter
  · have hlog' : log ++ [x] = (before ++ y :: after) ++ [z] := by simpa using hlog
    obtain ⟨rfl, -⟩ := List.append_inj' hlog' rfl
    have habsent := h y (by simp) f hy
    rw [hf] at habsent
    cases habsent

/-- An exchange that halts at a failure leaves a log that ends with it. -/
theorem secures_haltsIn {e : Exchange α} (h : e.Halts) {log : List Sent} (hlog : Undisturbed log) :
    e.Secures HaltsIn log := by
  induction e generalizing log with
  | done a => exact hlog.haltsIn _
  | fail f => exact hlog.haltsIn _
  | note e rest ih => exact ih h hlog
  | ask q next ih =>
    cases q with
    | clock => exact fun now => ih _ (h.2 _) hlog
    | freshId => exact fun id => ih _ (h.2 _) hlog
    | send mode st =>
      intro a
      cases a with
      | ok a => exact ih _ (h.2 _) (hlog.concat nofun)
      | error f =>
        cases hf : f.isA .notFound with
        | true =>
          refine ih _ (h.2 _) (hlog.concat fun f' he => ?_)
          obtain rfl := Except.error.inj he
          exact hf
        | false =>
          obtain ⟨g, -, hnext⟩ := h.1 f hf
          rw [hnext]
          exact hlog.haltsIn_concat _ g

end Exchange

end Sql

namespace Course

open Sql

variable {α : Type} {name : String} {s : Session} {script : List Scripted} {past : List Action}

/-- **An exchange over a connection comes to an end, and what it secures is true of its log.** -/
theorem exchange_of_secures {Q : List Sent → Except Failure α → Prop} {e : Exchange α}
    {log : List Sent} (h : e.Secures Q log) (hs : s.Reaches name script past) :
    ∃ r s' more left, (exchange name e).run s = some (r, s') ∧
      s'.Reaches name left (past ++ more.map Sent.action) ∧ Answered script more ∧
      Q (log ++ more) r := by
  induction e generalizing s script past log with
  | done a =>
    refine ⟨.ok a, s, [], script, rfl, ?_, trivial, ?_⟩
    · rwa [List.map_nil, List.append_nil]
    · rwa [List.append_nil]
  | fail f =>
    refine ⟨.error f, s, [], script, rfl, ?_, trivial, ?_⟩
    · rwa [List.map_nil, List.append_nil]
    · rwa [List.append_nil]
  | note e rest ih => exact ih (s := { s with events := s.events ++ [e] }) h hs
  | ask q next ih =>
    cases q with
    | clock =>
      obtain ⟨s₁, hstep, hs₁, -⟩ := exchange_clock hs next
      obtain ⟨r, s', more, left, hrun, hrest⟩ := ih _ (h _) hs₁
      exact ⟨r, s', more, left, hstep.trans hrun, hrest⟩
    | freshId =>
      obtain ⟨s₁, hstep, hs₁, -⟩ := exchange_freshId hs next
      obtain ⟨r, s', more, left, hrun, hrest⟩ := ih _ (h _) hs₁
      exact ⟨r, s', more, left, hstep.trans hrun, hrest⟩
    | send mode st =>
      obtain ⟨s₁, hstep, hs₁, -⟩ := exchange_send hs mode st next
      obtain ⟨r, s', more, left, hrun, hs', hanswered, hQ⟩ := ih _ (h _) hs₁
      rw [List.append_assoc] at hs' hQ
      exact ⟨r, s', ⟨mode, st, script.headD (.ok .nothing)⟩ :: more, left, hstep.trans hrun, hs',
        ⟨rfl, hanswered⟩, hQ⟩

end Course

end ReviewRota
