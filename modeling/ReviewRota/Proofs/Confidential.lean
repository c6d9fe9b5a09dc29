import ReviewRota.Proofs.Connected
import ReviewRota.Proofs.Discretion

/-!
# What failures say stays below the service

Two sessions with nothing between them but what the failures say that a connection still has to
answer with. Whatever the service does in the one it does in the other: there is a rule for each part
of a session, from a single answer up to the response to a request. So no client can find out from
responses what a failure said, neither the name of a constraint nor the message of a driver.
-/

namespace ReviewRota

open Sql

/-- Sessions that differ only in failures to come which the service does not tell apart. -/
inductive Session.Alike (name : String) : Session → Session → Prop where
  | intro (base : Session) {c c' : Connection} (scripts : List.Forall₂ AlikeOutcomes c.script c'.script)
      (traces : c.trace = c'.trace) :
      Alike name (base.putDatabase name (.connected c)) (base.putDatabase name (.connected c'))

namespace Course

variable {α β γ δ : Type} {name : String}

/-- Wherever two computations start from sessions that are alike, both come to an end, their results
are related, and the sessions are alike afterwards. -/
def Alike (name : String) (R : α → β → Prop) (x : Course α) (y : Course β) : Prop :=
  ∀ s s', s.Alike name s' →
    ∃ a t b t', x.run s = some (a, t) ∧ y.run s' = some (b, t') ∧ R a b ∧ t.Alike name t'

variable {R : α → β → Prop} {S : γ → δ → Prop}

theorem alike_pure {a : α} {b : β} (h : R a b) : Alike name R (pure a) (pure b) := by
  intro s s' hs
  exact ⟨a, s, b, s', rfl, rfl, h, hs⟩

theorem Alike.bind {x : Course α} {y : Course β} {k : α → Course γ} {l : β → Course δ}
    (hx : Alike name R x y) (hk : ∀ a b, R a b → Alike name S (k a) (l b)) :
    Alike name S (x >>= k) (y >>= l) := by
  intro s s' hs
  obtain ⟨a, t, b, t', hx, hy, hab, ht⟩ := hx s s' hs
  obtain ⟨c, u, d, u', hk, hl, hcd, hu⟩ := hk a b hab t t' ht
  exact ⟨c, u, d, u', run_bind_eq_some.mpr ⟨a, t, hx, hk⟩, run_bind_eq_some.mpr ⟨b, t', hy, hl⟩,
    hcd, hu⟩

/-! ## Steps of a session -/

/-- A step that does not touch the databases. -/
theorem alike_modify {f : Session → Session}
    (apart : ∀ s d, f (s.putDatabase name d) = (f s).putDatabase name d) :
    Alike name (fun _ _ => True) (modify f) (modify f) := by
  rintro s s' ⟨base, scripts, traces⟩
  refine ⟨(), _, (), _, rfl, rfl, trivial, ?_⟩
  rw [apart, apart]
  exact .intro (f base) scripts traces

theorem alike_report (e : Event) : Alike name (fun _ _ => True) (report e) (report e) :=
  alike_modify fun _ _ => rfl

/-- The same transactions are open in both sessions. -/
theorem alike_opened : Alike name (fun s s' : Session => s.opened = s'.opened) get get := by
  rintro s s' ⟨base, scripts, traces⟩
  exact ⟨_, _, _, _, rfl, rfl, rfl, .intro base scripts traces⟩

theorem alike_database : Alike name (fun d d' => ∃ c c', d = .connected c ∧ d' = .connected c')
    (database name) (database name) := by
  rintro s s' ⟨base, scripts, traces⟩
  exact ⟨_, _, _, _, database_eq (Session.lookup_putDatabase ..),
    database_eq (Session.lookup_putDatabase ..), ⟨_, _, rfl, rfl⟩, .intro base scripts traces⟩

theorem change_eq {c : Connection} {s : Session} (hc : s.databases.lookup name = some (.connected c))
    (g : Connection → Connection) : (change name (Database.onConnection g)).run s =
      some ((), s.putDatabase name (.connected (g c))) := by
  show some ((), s.putDatabase name (Database.onConnection g (s.database name))) = _
  rw [Session.database_of_lookup hc]
  rfl

/-- The beginning and the end of a transaction are noted on both connections. -/
theorem alike_noted (a b : Action) : Alike name (fun _ _ => True)
    (change name (Database.onConnection fun c => (c.note a).note b))
    (change name (Database.onConnection fun c => (c.note a).note b)) := by
  rintro s s' ⟨base, scripts, traces⟩
  refine ⟨_, _, _, _, change_eq (Session.lookup_putDatabase ..) _,
    change_eq (Session.lookup_putDatabase ..) _, trivial, ?_⟩
  rw [Session.putDatabase_putDatabase, Session.putDatabase_putDatabase]
  exact .intro base scripts (congrArg (fun trace => b :: a :: trace) traces)

/-- Whatever is asked of the connection or of the surroundings, the answers are alike. -/
theorem alike_answer (q : Ask) {c c' : Connection}
    (scripts : List.Forall₂ AlikeOutcomes c.script c'.script) (traces : c.trace = c'.trace)
    (supply : Supply) :
    AlikeOutcomes (Connection.answer q (c, supply)).1 (Connection.answer q (c', supply)).1 ∧
      List.Forall₂ AlikeOutcomes (Connection.answer q (c, supply)).2.1.script
        (Connection.answer q (c', supply)).2.1.script ∧
      (Connection.answer q (c, supply)).2.1.trace = (Connection.answer q (c', supply)).2.1.trace ∧
      (Connection.answer q (c, supply)).2.2 = (Connection.answer q (c', supply)).2.2 := by
  obtain ⟨script, trace⟩ := c
  obtain ⟨script', trace'⟩ := c'
  cases q with
  | clock => exact ⟨.ok _, scripts, traces, rfl⟩
  | freshId => exact ⟨.ok _, scripts, traces, rfl⟩
  | send mode st =>
    have htrace : Action.send mode st :: trace = .send mode st :: trace' := congrArg _ traces
    cases scripts with
    | nil => exact ⟨.ok _, .nil, htrace, rfl⟩
    | cons first rest => exact ⟨first, rest, htrace, rfl⟩

theorem alike_askConnection (q : Ask) :
    Alike name AlikeOutcomes (askConnection name q) (askConnection name q) := by
  rintro _ _ @⟨base, c, c', scripts, traces⟩
  obtain ⟨hreply, hscripts, htraces, hsupply⟩ := alike_answer q scripts traces base.supply
  refine ⟨_, _, _, _, askConnection_eq (Session.lookup_putDatabase ..) q,
    askConnection_eq (Session.lookup_putDatabase ..) q, hreply, ?_⟩
  show Session.Alike name
    (Session.putDatabase name (.connected (Connection.answer q (c, base.supply)).2.1)
      (Session.putDatabase name (.connected c)
        { base with supply := (Connection.answer q (c, base.supply)).2.2 }))
    (Session.putDatabase name (.connected (Connection.answer q (c', base.supply)).2.1)
      (Session.putDatabase name (.connected c')
        { base with supply := (Connection.answer q (c', base.supply)).2.2 }))
  rw [Session.putDatabase_putDatabase, Session.putDatabase_putDatabase, hsupply]
  exact .intro _ hscripts htraces

/-! ## Dialogues -/

variable {Ask' : Type} {Reply : Ask' → Type}

/-- Dialogues that are alike stay alike when someone answers who answers alike. -/
theorem alike_hold {answer : (q : Ask') → Course (Except Failure (Reply q))}
    (hanswer : ∀ q, Alike name AlikeOutcomes (answer q) (answer q))
    {d d' : Dialogue Ask' Reply α} (h : d.Alike d') :
    Alike name AlikeOutcomes (d.hold answer report) (d'.hold answer report) := by
  induction h with
  | done a => exact alike_pure (.ok a)
  | fail h => exact alike_pure (.error h)
  | note e _ ih => exact (alike_report e).bind fun _ _ _ => ih
  | ask q _ ih => exact (hanswer q).bind fun r r' hr => ih r r' hr

theorem alike_ask (version : Nat) (q : StoreCall) :
    Alike name AlikeOutcomes (ask ⟨name, version⟩ q) (ask ⟨name, version⟩ q) := by
  unfold ask
  refine alike_database.bind ?_
  rintro _ _ ⟨c, c', rfl, rfl⟩
  exact alike_hold alike_askConnection (discreet_perform q)

theorem alike_converse (version : Nat) {p : Program α} (hp : p.Discreet) :
    Alike name AlikeOutcomes (converse ⟨name, version⟩ p) (converse ⟨name, version⟩ p) :=
  alike_hold (alike_ask version) hp

/-! ## Transactions -/

variable {well : β → Bool} {Q : β → β → Prop} {body : Handle → Course β}

theorem alike_within (h : Handle) (hbody : Alike name Q (body h) (body h)) :
    Alike name Q (within h body) (within h body) := by
  unfold within
  refine alike_opened.bind fun s s' hopened => ?_
  dsimp only
  rw [hopened]
  refine (alike_modify fun _ _ => rfl).bind fun _ _ _ => hbody.bind fun r r' hr => ?_
  exact (alike_modify fun _ _ => rfl).bind fun _ _ _ => alike_pure hr

theorem alike_newTransaction (hwell : ∀ r r', Q r r' → well r = well r')
    (hbody : Alike name Q (body ⟨name, 0⟩) (body ⟨name, 0⟩)) :
    Alike name Q (newTransaction name well body) (newTransaction name well body) := by
  unfold newTransaction
  refine alike_database.bind ?_
  rintro _ _ ⟨c, c', rfl, rfl⟩
  refine (alike_noted _ _).bind fun _ _ _ => ?_
  refine (alike_within _ hbody).bind fun r r' hr => ?_
  rw [hwell r r' hr]
  exact (alike_noted _ _).bind fun _ _ _ => alike_pure hr

theorem alike_inTransaction (hwell : ∀ r r', Q r r' → well r = well r')
    (hbody : ∀ version, Alike name Q (body ⟨name, version⟩) (body ⟨name, version⟩)) :
    Alike name Q (inTransaction name well body) (inTransaction name well body) := by
  unfold inTransaction
  refine alike_opened.bind fun s s' hopened => ?_
  rw [hopened]
  cases s'.opened with
  | nil => exact alike_newTransaction hwell (hbody 0)
  | cons h rest =>
    dsimp only
    split
    · rename_i hname
      obtain ⟨database, version⟩ := h
      subst hname
      exact hbody version
    · exact alike_newTransaction hwell (hbody 0)

/-! ## Calls and requests -/

theorem alike_command (c : Command) :
    Alike name AlikeOutcomes (command name c) (command name c) := by
  have hwell : ∀ r r' : Except Failure c.Result, AlikeOutcomes r r' → r.isOk = r'.isOk := by
    rintro _ _ (_ | _) <;> rfl
  unfold command
  refine (alike_inTransaction hwell fun version =>
    alike_converse version c.discreet_program).bind fun r r' hr => ?_
  cases hr with
  | error h => exact alike_pure (.error h)
  | ok a =>
    dsimp only
    cases c.report a with
    | error f => exact alike_pure (.error (.refl f))
    | ok e => exact (alike_report e).bind fun _ _ _ => alike_pure (.ok a)

theorem alike_query (q : Query) : Alike name AlikeOutcomes (query name q) (query name q) := by
  have hview : Alike name (fun h h' => h = ⟨name, 0⟩ ∧ h' = ⟨name, 0⟩) (committed name)
      (committed name) := by
    unfold committed
    refine alike_database.bind ?_
    rintro _ _ ⟨c, c', rfl, rfl⟩
    exact alike_pure ⟨rfl, rfl⟩
  unfold query
  refine hview.bind ?_
  rintro _ _ ⟨rfl, rfl⟩
  exact alike_converse 0 q.discreet_program

end Course

namespace Http

variable {α : Type} {m : Type → Type} [Monad m] {name : String} {r : Request}

/-- Failures that are alike are answered with the same response. -/
theorem refuse_eq (desk : Desk m) {f f' : Failure} (h : f.Alike f') :
    refuse desk r f = refuse desk r f' := by
  have hother : ∀ g : Failure, g.IsOther → refuse desk r g = refuse desk r (.duplicate "") := by
    intro g hg
    cases g <;> first | rfl | exact hg.elim
  cases h with
  | refused refusal => rfl
  | duplicate text text' => rfl
  | other left right => rw [hother f left, hother f' right]

open Course

theorem alike_refuse (f : Failure) :
    Course.Alike name Eq (refuse (desk name) r f) (refuse (desk name) r f) := by
  unfold refuse
  split <;> exact (alike_report _).bind fun _ _ _ => alike_pure rfl

theorem alike_answerOutcome {o o' : Except Failure α} (h : AlikeOutcomes o o')
    {go : α → Course Response} (hgo : ∀ a, Course.Alike name Eq (go a) (go a)) :
    Course.Alike name Eq (answerOutcome (desk name) r o go) (answerOutcome (desk name) r o' go) := by
  cases h with
  | ok a => exact hgo a
  | error h =>
    unfold answerOutcome
    dsimp only
    rw [refuse_eq _ h]
    exact alike_refuse _

theorem alike_answerReading (reading : Reading α) {go : α → Course Response}
    (hgo : ∀ a, Course.Alike name Eq (go a) (go a)) :
    Course.Alike name Eq (answerReading (desk name) r reading go)
      (answerReading (desk name) r reading go) := by
  cases reading with
  | value a => exact hgo a
  | issues is =>
    unfold answerReading
    dsimp only
    split
    · exact alike_pure rfl
    · exact alike_refuse _
  | unreadable => exact alike_pure rfl

theorem alike_serveAt (e : Endpoint) :
    Course.Alike name Eq (serveAt (desk name) r e) (serveAt (desk name) r e) := by
  cases e with
  | addTeam =>
    refine alike_answerReading _ fun draft => (alike_command _).bind fun o o' ho => ?_
    exact alike_answerOutcome ho fun _ => alike_pure rfl
  | getTeam =>
    refine alike_answerReading _ fun title => (alike_query _).bind fun o o' ho => ?_
    exact alike_answerOutcome ho fun _ => alike_pure rfl
  | setActive =>
    refine alike_answerReading _ fun draft => (alike_command _).bind fun o o' ho => ?_
    exact alike_answerOutcome ho fun _ => alike_pure rfl
  | getReview =>
    refine alike_answerReading _ fun id => (alike_query _).bind fun o o' ho => ?_
    exact alike_answerOutcome ho fun _ => alike_pure rfl
  | openPullRequest =>
    refine alike_answerReading _ fun draft => (alike_command _).bind fun o o' ho => ?_
    exact alike_answerOutcome ho fun _ => alike_pure rfl
  | mergePullRequest =>
    refine alike_answerReading _ fun draft => (alike_command _).bind fun o o' ho => ?_
    refine alike_answerOutcome ho fun pr => (alike_query _).bind fun o o' ho => ?_
    exact alike_answerOutcome ho fun _ => alike_pure rfl
  | reassign =>
    refine alike_answerReading _ fun draft => (alike_command _).bind fun o o' ho => ?_
    exact alike_answerOutcome ho fun _ => alike_pure rfl

theorem alike_serveAny : Course.Alike name Eq (serveAny (desk name) r) (serveAny (desk name) r) := by
  have hserve : Course.Alike name Eq (serve (desk name) r) (serve (desk name) r) := by
    unfold serve
    split
    · exact (alike_serveAt _).bind fun _ _ h => alike_pure h
    all_goals exact alike_pure rfl
  unfold serveAny
  refine hserve.bind ?_
  rintro response _ rfl
  split <;> exact alike_pure rfl

/-- **What a failure says never reaches a client.** When two connections are going to give the same
answers, except that where one of them fails the other fails with a failure that says something else,
every request gets the same response over both. -/
theorem same_response (name : String) (r : Request) (z : Session) {script script' : List Scripted}
    (alike : List.Forall₂ AlikeOutcomes script script') :
    ∃ response s s',
      (serveAny (desk name) r).run (Task.answering name script z) = some (response, s) ∧
        (serveAny (desk name) r).run (Task.answering name script' z) = some (response, s') := by
  have hsessions : (Task.answering name script z).Alike name (Task.answering name script' z) :=
    .intro z alike rfl
  obtain ⟨response, s, _, s', hrun, hrun', rfl, -⟩ := alike_serveAny _ _ hsessions
  exact ⟨response, s, s', hrun, hrun'⟩

/-- A request to set the activity of a user. -/
def activation : Request where
  method := "POST"
  path := "/users/setIsActive"
  body := .document (.object [("user_id", .text (Identifier.ofNat 1).text), ("is_active", .bool true)])

/-- Its update is refused as a duplicate, and the response is a conflict whichever constraint it was. -/
theorem same_response_to_duplicate :
    List.Forall₂ (AlikeOutcomes (α := Sql.Answer)) [.error (.duplicate "users_team_username_unique")]
        [.error (.duplicate "users_pkey")] ∧
      ∃ response s s', response.status = 409 ∧
        (serveAny (desk "rota") activation).run (Task.answering "rota"
          [.error (.duplicate "users_team_username_unique")] (.holding "memory" .empty default)) =
            some (response, s) ∧
        (serveAny (desk "rota") activation).run (Task.answering "rota"
          [.error (.duplicate "users_pkey")] (.holding "memory" .empty default)) =
            some (response, s') := by
  have halike : List.Forall₂ (AlikeOutcomes (α := Sql.Answer))
      [.error (.duplicate "users_team_username_unique")] [.error (.duplicate "users_pkey")] :=
    .cons (.error (.duplicate _ _)) .nil
  obtain ⟨response, s, s', hrun, hrun'⟩ :=
    same_response "rota" activation (.holding "memory" .empty default) halike
  have hstatus : ((serveAny (desk "rota") activation).run (Task.answering "rota"
      [.error (.duplicate "users_team_username_unique")] (.holding "memory" .empty default))).map
        (fun p => p.1.status) = some 409 := by decide +kernel
  rw [hrun] at hstatus
  exact ⟨halike, response, s, s', Option.some.inj hstatus, hrun, hrun'⟩

end Http

end ReviewRota
