import ReviewRota.Proofs.Tasks

/-!
# Work inside a transaction

Whatever an operation can do once it runs in a transaction, as a tree: it asks the store, looks at
what is committed, makes transactions of the same database inside its own, raises failures, and goes
on with every outcome as it likes, be it a value or a failure that it catches. The calls of the
service are work of this kind. Next to what work does in a session stands what it comes to: its
outcome, and the requests to the store that are made in it, in order.
-/

namespace ReviewRota

/-- The rest of an operation inside a transaction. -/
inductive Work : Type → Type 1 where
  | done {α : Type} (a : α) : Work α
  | fail {α : Type} (f : Failure) : Work α
  | report {α : Type} (e : Event) (rest : Work α) : Work α
  /-- A request to the store of the transaction. -/
  | ask {α : Type} (q : StoreCall) (next : Except Failure q.Reply → Work α) : Work α
  /-- A call that only looks, at what is committed. -/
  | look {α β : Type} (p : Program β) (looks : p.Looks) (next : Except Failure β → Work α) : Work α
  /-- A transaction inside. What becomes of its failure is up to the rest. -/
  | transaction {α β : Type} (body : Work β) (next : Except Failure β → Work α) : Work α

namespace Work

variable {α β γ : Type}

/-- Do work in a session, with a view of the open transaction. -/
def run : {α : Type} → Work α → Handle → Course (Except Failure α)
  | _, done a, _ => return .ok a
  | _, fail f, _ => return .error f
  | _, report e rest, h => do
    Course.report e
    rest.run h
  | _, ask q next, h => do
    let r ← Course.ask h q
    (next r).run h
  | _, look p _ next, h => do
    let r ← Course.converse (← Course.committed h.database) p
    (next r).run h
  | _, transaction body next, h => do
    let r ← Course.inTransaction h.database Except.isOk body.run
    (next r).run h

/-- Do one piece of work and go on with its outcome, be it a value or a failure that is caught. -/
def settle : {α : Type} → Work α → (Except Failure α → Work β) → Work β
  | _, done a, k => k (.ok a)
  | _, fail f, k => k (.error f)
  | _, report e rest, k => report e (rest.settle k)
  | _, ask q next, k => ask q fun r => (next r).settle k
  | _, look p looks next, k => look p looks fun r => (next r).settle k
  | _, transaction body next, k => transaction body fun r => (next r).settle k

theorem run_settle (work : Work α) (k : Except Failure α → Work β) (h : Handle) :
    (work.settle k).run h = (do let r ← work.run h; (k r).run h) := by
  induction work with
  | done a => simp [settle, run]
  | fail f => simp [settle, run]
  | report e rest ih => simp [settle, run, ih]
  | ask q next ih => simp [settle, run, ih]
  | look p looks next ih => simp [settle, run, ih]
  | transaction body next _ ih => simp [settle, run, ih]

/-! ## Calls of the service -/

/-- The requests of a call. -/
def ofProgram : Program α → Work α
  | .done a => done a
  | .fail f => fail f
  | .note e rest => report e (ofProgram rest)
  | .ask q next => ask q fun r => ofProgram (next r)

theorem run_ofProgram (p : Program α) (h : Handle) : (ofProgram p).run h = Course.converse h p := by
  induction p with
  | done a => rfl
  | fail f => rfl
  | note e rest ih => simp [ofProgram, run, ih, Course.converse, Dialogue.hold]
  | ask q next ih => simp [ofProgram, run, ih, Course.converse, Dialogue.hold]

/-- A value or a failure as the end of work. -/
def ofExcept : Except Failure α → Work α
  | .ok a => done a
  | .error f => fail f

@[simp] theorem run_ofExcept (r : Except Failure α) (h : Handle) : (ofExcept r).run h = pure r := by
  cases r <;> rfl

/-- A command that is made by an operation. -/
def command (c : Command) : Work c.Result :=
  transaction (ofProgram c.program) fun
    | .error f => fail f
    | .ok r =>
      match c.report r with
      | .error f => fail f
      | .ok e => report e (done r)

/-- A query that is made by an operation. -/
def query (q : Query) : Work q.Result := look q.program q.looks_program ofExcept

theorem run_command (c : Command) (h : Handle) :
    (command c).run h = Course.command h.database c := by
  have hbody : (ofProgram c.program).run = fun h => Course.converse h c.program :=
    funext fun h => run_ofProgram c.program h
  simp only [command, run, Course.command, hbody]
  congr 1
  funext r
  cases r with
  | error f => rfl
  | ok r => cases hreport : c.report r <;> simp [hreport, run]

theorem run_query (q : Query) (h : Handle) : (query q).run h = Course.query h.database q := by
  simp [query, run, Course.query]

/-! ## What work comes to -/

/-- The outcome of work in a world, and the world after it, when `t` is committed. -/
def on (t : Tables) : {α : Type} → Work α → World → Except Failure α × World
  | _, done a, w => (.ok a, w)
  | _, fail f, w => (.error f, w)
  | _, report _ rest, w => rest.on t w
  | _, ask q next, w => (next (q.run w).1).on t (q.run w).2
  | _, look p _ next, w => (next (p.on ⟨t, w.supply⟩).1).on t w
  | _, transaction body next, w => (next (body.on t w).1).on t (body.on t w).2

/-- The requests to the store of the transaction that are made in work, in order, those of failed
transactions inside included. -/
def requests (t : Tables) : {α : Type} → Work α → World → List StoreCall
  | _, done _, _ => []
  | _, fail _, _ => []
  | _, report _ rest, w => rest.requests t w
  | _, ask q next, w => q :: (next (q.run w).1).requests t (q.run w).2
  | _, look p _ next, w => (next (p.on ⟨t, w.supply⟩).1).requests t w
  | _, transaction body next, w =>
    body.requests t w ++ (next (body.on t w).1).requests t (body.on t w).2

end Work

/-- The world after requests, one after the other. -/
def World.after (qs : List StoreCall) (w : World) : World := qs.foldl (fun w q => (q.run w).2) w

@[simp] theorem World.after_append (qs rs : List StoreCall) (w : World) :
    w.after (qs ++ rs) = (w.after qs).after rs := by
  simp [World.after]

namespace Work

variable {α : Type}

/-- Nothing but the requests changes the world. -/
theorem on_snd (t : Tables) (work : Work α) (w : World) :
    (work.on t w).2 = w.after (work.requests t w) := by
  induction work generalizing w with
  | done a => rfl
  | fail f => rfl
  | report e rest ih => exact ih w
  | ask q next ih => exact ih _ _
  | look p looks next ih => exact ih _ _
  | transaction body next ihbody ih =>
    rw [on, requests, World.after_append, ← ihbody w]
    exact ih _ _

/-- What an operation comes to as a transaction of its own. -/
def outcome (work : Work α) (t : Tables) (supply : Supply) : Except Failure α :=
  (work.on t ⟨t, supply⟩).1

/-- What is committed after an operation: what its requests make of what was committed before, or
just that when the operation fails. -/
def leaves (work : Work α) (t : Tables) (supply : Supply) : Tables :=
  if (work.outcome t supply).isOk then
    (World.after (work.requests t ⟨t, supply⟩) ⟨t, supply⟩).tables
  else t

end Work

end ReviewRota
