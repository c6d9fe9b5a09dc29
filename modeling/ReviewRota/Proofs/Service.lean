import ReviewRota.Proofs.Changes
import ReviewRota.Proofs.MergeRequests
import ReviewRota.Proofs.Readings
import ReviewRota.Proofs.Refusals
import ReviewRota.Proofs.Tasks

/-!
# The service over time

Requests come one after the other, from empty tables on. The tables stay in good order and all
instants on them come from clocks of one offset, so that no call fails but by a refusal, and each
endpoint answers with one of its documented responses. There is one way out of this: a body that
cannot be told again is read and refused, and the answer that should tell what is wrong with it cannot
be written either; or the body is nested too deep, or a number in it is too long, to be read at all.
-/

namespace ReviewRota

open Http

namespace Http

/-- The statuses and codes with which an endpoint answers. -/
def Endpoint.documented : Endpoint → List (Nat × Option String)
  | addTeam => [(201, none), (400, "TEAM_EXISTS"), (422, none)]
  | getTeam | setActive | mergePullRequest => [(200, none), (404, "NOT_FOUND"), (422, none)]
  | getReview => [(200, none), (422, none)]
  | openPullRequest => [(201, none), (404, "NOT_FOUND"), (409, "PR_EXISTS"), (422, none)]
  | reassign => [(200, none), (404, "NOT_FOUND"), (409, "PR_MERGED"), (409, "NOT_ASSIGNED"),
      (409, "NO_CANDIDATE"), (422, none)]

/-- The kinds of refusals that serving an endpoint comes to. -/
def Endpoint.refusals : Endpoint → List RefusalKind
  | addTeam => [.teamExists]
  | getTeam => [.teamNotFound]
  | setActive => [.userNotFound]
  | getReview => []
  | openPullRequest => [.authorNotFound, .pullRequestExists]
  | mergePullRequest => [.pullRequestNotFound]
  | reassign => [.pullRequestNotFound, .pullRequestMerged, .reviewerNotAssigned, .noCandidate]

/-- If the endpoint reads the body of the request, then the body is plain. -/
def Request.PlainFor (e : Endpoint) (r : Request) : Prop := e.method = "POST" → r.Plain

/-- Every refusal is documented with its status and its code. -/
theorem Endpoint.documented_refusals (e : Endpoint) :
    ∀ k ∈ e.refusals, (k.status, some k.code) ∈ e.documented := by
  cases e <;> decide

namespace Response

/-- The code of the error that a response tells of. -/
def code? (r : Response) : Option String := do
  let error ← (← r.body).member? "error"
  (← error.member? "code").text?

/-- The response is one of those that an endpoint has. -/
def Documented (e : Endpoint) (r : Response) : Prop := (r.status, r.code?) ∈ e.documented

/-- The response that tells of a failure. -/
def telling : Failure → Response
  | .refused r => .of r.kind.status r.body
  | _ => .internal

/-- The response to a body that cannot be read at all. -/
def unparsed : Response := .detail 400 "There was an error parsing the body"

/-- What comes of a request: a documented response, unless the endpoint reads a body and the body is not
plain. -/
def Expected (e : Endpoint) (request : Request) (r : Response) : Prop :=
  r.Documented e ∨ ¬ request.PlainFor e ∧ (r = .internal ∨ r = .unparsed)

variable {e : Endpoint}

theorem documented_issues (e : Endpoint) (is : List Issue) : (issues is).Documented e := by
  show (422, none) ∈ e.documented
  cases e <;> decide

theorem documented_telling {f : Failure} (hf : f.IsAmong e.refusals) :
    (telling f).Documented e := by
  obtain ⟨r, rfl, hr⟩ := hf
  exact e.documented_refusals r.kind hr

end Response

/-- No endpoint is asked for its head alone. -/
theorem method_ne_head {method path : String} {e : Endpoint}
    (h : destination method path = .endpoint e) : method ≠ "HEAD" := by
  unfold destination at h
  split at h
  · rename_i found _
    split at h
    · rename_i hm
      rw [← hm]
      cases found <;> decide
    · cases h
  · dsimp only at h
    split at h <;> cases h

section

variable {m : Type → Type} [Monad m] [LawfulMonad m] {r : Request}

theorem serveAny_endpoint {e : Endpoint} (h : destination r.method r.path = .endpoint e)
    (desk : Desk m) : serveAny desk r = serveAt desk r e := by
  simp only [serveAny, serve, h, if_neg (method_ne_head h), bind_pure]

/-- What no endpoint serves is answered without a call. -/
theorem exists_serveAny_eq (h : ∀ e, destination r.method r.path ≠ .endpoint e) (desk : Desk m) :
    ∃ response, serveAny desk r = pure response := by
  have hserve : ∃ response, serve desk r = pure response := by
    unfold serve
    cases hd : destination r.method r.path with
    | endpoint e => exact absurd hd (h e)
    | wrongMethod | elsewhere | nowhere => exact ⟨_, rfl⟩
  obtain ⟨response, hserve⟩ := hserve
  rw [serveAny, hserve, pure_bind]
  split
  · exact ⟨_, rfl⟩
  · exact ⟨_, rfl⟩

end

end Http

/-! ## Tables that are kept on one clock -/

/-- All pull requests were created by clocks of this offset. -/
def Tables.OnClock (o : Int) (t : Tables) : Prop :=
  ∀ k p, t.pullRequests.find? k = some p → p.createdAt.offset = some o

theorem Tables.OnClock.change {o : Int} {t t' : Tables} {now : Instant} (h : t.OnClock o)
    (hnow : now.offset = some o) (hc : Tables.Change now t t') : t'.OnClock o := by
  intro k p hp
  rcases hc.origin hp with hp | ⟨hcreated, -⟩ | ⟨q, hq, rfl⟩
  · exact h k p hp
  · rw [hcreated, hnow]
  · exact h k q hq

/-- A session whose tables are at rest and in good order, on one clock. -/
structure Session.Serves (name : String) (o : Int) (t : Tables) (s : Session) : Prop where
  rests : s.Rests name t
  integrity : t.Integrity
  clock : t.OnClock o

namespace Course

variable {name : String} {o : Int} {t : Tables} {s : Session} {P : Response → Prop}

/-- The session comes to a response of some kind and can go on serving. -/
def Responds (name : String) (o : Int) (x : Course Response) (s : Session) (P : Response → Prop) :
    Prop :=
  ∃ response s' t', x.run s = some (response, s') ∧ s'.Serves name o t' ∧ P response

theorem responds_pure (hs : s.Serves name o t) {response : Response} (h : P response) :
    Responds name o (pure response) s P :=
  ⟨response, s, t, rfl, hs, h⟩

/-- Telling of a failure leaves nothing but an event. -/
theorem run_refuse (name : String) (r : Request) (f : Failure) (s : Session) :
    ∃ es, (refuse (desk name) r f).run s = some (.telling f, s.heard es) := by
  cases f <;> exact ⟨_, rfl⟩

theorem responds_refuse (hs : s.Serves name o t) {f : Failure} (h : P (.telling f)) (r : Request) :
    Responds name o (refuse (desk name) r f) s P := by
  obtain ⟨es, hrun⟩ := run_refuse name r f s
  exact ⟨_, _, t, hrun, ⟨hs.rests.heard es, hs.integrity, hs.clock⟩, h⟩

theorem Responds.after {α : Type} {x : Course α} {k : α → Course Response} {a : α} {s' : Session}
    (hx : x.run s = some (a, s')) (h : Responds name o (k a) s' P) : Responds name o (x >>= k) s P := by
  obtain ⟨response, s'', t', hrun, hs, hP⟩ := h
  exact ⟨response, s'', t', run_bind_eq_some.mpr ⟨a, s', hx, hrun⟩, hs, hP⟩

/-! ## Parts of serving a request -/

variable {e : Endpoint} {r : Request}

theorem responds_answerReading {α : Type} (hs : s.Serves name o t) {reading : Reading α}
    (htell : r.PlainFor e → reading.Tellable r.nesting.told) {go : α → Course Response}
    (hgo : ∀ a, reading = .value a → Responds name o (go a) s (Response.Expected e r)) :
    Responds name o (answerReading (desk name) r reading go) s (Response.Expected e r) := by
  cases reading with
  | value a => exact hgo a rfl
  | issues is =>
    by_cases hw : (is.all fun i => i.subject.isWritable r.nesting.told) = true
    · rw [answerReading, if_pos hw]
      exact responds_pure hs (.inl (Response.documented_issues e is))
    · rw [answerReading, if_neg hw]
      exact responds_refuse hs (.inr ⟨fun hplain => hw (htell hplain), .inl rfl⟩) r
  | unreadable => exact responds_pure hs (.inr ⟨htell, .inr rfl⟩)

/-- Where a body is read, what is wrong with a plain one can be told. -/
theorem responds_answerBody {α : Type} (hs : s.Serves name o t) (hpost : e.method = "POST")
    {read : IssueKind → Json → Checked α} (hkeeps : ∀ refusal, Field.KeepsTo (read refusal))
    {go : α → Course Response}
    (hgo : ∀ a, readBody read r = .value a → Responds name o (go a) s (Response.Expected e r)) :
    Responds name o (answerReading (desk name) r (readBody read r) go) s (Response.Expected e r) :=
  responds_answerReading hs (fun hplain => tellable_readBody hkeeps (hplain hpost)) hgo

theorem responds_answerOutcome {α : Type} (hs : s.Serves name o t) {outcome : Except Failure α}
    (hfails : ∀ f, outcome = .error f → f.IsAmong e.refusals) {go : α → Course Response}
    (hgo : ∀ a, outcome = .ok a → Responds name o (go a) s (Response.Expected e r)) :
    Responds name o (answerOutcome (desk name) r outcome go) s (Response.Expected e r) := by
  cases outcome with
  | ok a => exact hgo a rfl
  | error f => exact responds_refuse hs (.inl (Response.documented_telling (hfails f rfl))) r

/-- A command either is refused, or the answer goes on from what it made of the tables. -/
theorem responds_command (hs : s.Serves name o t) (hclock : s.supply.last.offset = some o)
    {c : Command} (hp : c.Proper ⟨t, s.supply⟩) (hkinds : c.refusals = e.refusals)
    {go : c.Result → Course Response}
    (hgo : ∀ a s', (c.program.on ⟨t, s.supply⟩).1 = .ok a →
      s'.Serves name o (c.program.on ⟨t, s.supply⟩).2.tables →
      Responds name o (go a) s' (Response.Expected e r)) :
    Responds name o ((desk name).command c >>= fun outcome =>
      answerOutcome (desk name) r outcome go) s (Response.Expected e r) := by
  obtain ⟨s', hrun, hrests⟩ := command_rests hs.rests hs.integrity hp
  have hs' : s'.Serves name o (c.program.on ⟨t, s.supply⟩).2.tables := by
    have hafter := Call.after_eq_or_change (k := ⟨c, s.supply⟩) hs.integrity hp
    rw [Call.after] at hafter
    rcases hafter with hsame | hchange
    · rw [hsame] at hrests ⊢
      exact ⟨hrests, hs.integrity, hs.clock⟩
    · have hreading : (Call.reading ⟨c, s.supply⟩).offset = some o := hclock
      exact ⟨hrests, hs.integrity.change hchange, hs.clock.change hreading hchange⟩
  exact Responds.after hrun (responds_answerOutcome hs'
    (fun f hf => hkinds ▸ c.isAmong_refusals hs.integrity hp hf) fun a ha => hgo a s' ha hs')

theorem responds_query (hs : s.Serves name o t) {q : Query}
    (hfails : ∀ f, (q.program.on ⟨t, s.supply⟩).1 = .error f → f.IsAmong e.refusals)
    {go : q.Result → Course Response}
    (hgo : ∀ a s', (q.program.on ⟨t, s.supply⟩).1 = .ok a → s'.Serves name o t →
      Responds name o (go a) s' (Response.Expected e r)) :
    Responds name o ((desk name).query q >>= fun outcome =>
      answerOutcome (desk name) r outcome go) s (Response.Expected e r) := by
  obtain ⟨s', hrun, hrests⟩ := Task.query_keeps hs.rests q
  have hs' : s'.Serves name o t := ⟨hrests, hs.integrity, hs.clock⟩
  exact Responds.after hrun (responds_answerOutcome hs' hfails fun a ha => hgo a s' ha hs')

/-- **An endpoint answers as expected**, whatever holds of the rest of the request. -/
theorem responds_serveAt (hs : s.Serves name o t) (hclock : s.supply.last.offset = some o)
    (hfresh : t.teams.find? s.supply.freshId.1 = none) (e : Endpoint) (r : Request) :
    Responds name o (serveAt (desk name) r e) s (Response.Expected e r) := by
  have hok : ∀ {response : Response} {t' : Tables} {s' : Session}, s'.Serves name o t' →
      response.Documented e →
      Responds name o (pure response) s' (Response.Expected e r) :=
    fun hs' hdoc => responds_pure hs' (.inl hdoc)
  cases e with
  | addTeam =>
    refine responds_answerBody hs rfl TeamDraft.keepsTo fun draft hread => ?_
    obtain ⟨j, -, hj⟩ := readBody_eq_value.mp hread
    have hp : (Command.createTeam draft).Proper ⟨t, s.supply⟩ :=
      ⟨TeamDraft.consistent_of_ofJson hj, fun _ => hfresh⟩
    exact responds_command hs hclock hp rfl fun roster s' _ hs' => hok hs' (.head _)
  | getTeam =>
    refine responds_answerReading hs (fun _ => tellable_readParameter Field.keepsTo_text _ r)
      fun teamName _ => ?_
    exact responds_query (e := .getTeam) (q := .team teamName) hs (fun f hf => Program.failure_team hf)
      fun roster s' _ hs' => hok hs' (.head _)
  | setActive =>
    refine responds_answerBody hs rfl (fun _ => (ActivityDraft.finds _).keepsTo) fun draft _ => ?_
    have hp : (Command.setActive draft.userId draft.isActive).Proper ⟨t, s.supply⟩ := trivial
    exact responds_command hs hclock hp rfl fun user s' _ hs' => hok hs' (.head _)
  | getReview =>
    refine responds_answerReading hs (fun _ => tellable_readParameter Field.keepsTo_identifier _ r)
      fun id _ => ?_
    refine responds_query (q := .assignedReviews id) hs (fun f hf => ?_)
      fun prs s' _ hs' => hok hs' (.head _)
    -- the instants on the tables have an order, so this query does not fail at all
    obtain ⟨prs, hprs⟩ := Program.exists_assignedReviews (w := ⟨t, s.supply⟩) hs.clock id
    exact nomatch hprs.symm.trans hf
  | openPullRequest =>
    refine responds_answerBody hs rfl (fun _ => (PullRequestDraft.finds _).keepsTo) fun draft _ => ?_
    have hp : (Command.openPullRequest draft.pullRequestId draft.pullRequestName draft.authorId
        r.draws usualReviewers).Proper ⟨t, s.supply⟩ := rfl
    exact responds_command hs hclock hp rfl fun review s' _ hs' => hok hs' (.head _)
  | mergePullRequest =>
    refine responds_answerBody hs rfl (fun _ => (MergeDraft.finds _).keepsTo) fun draft _ => ?_
    have hp : (Command.merge draft.pullRequestId).Proper ⟨t, s.supply⟩ := trivial
    refine responds_command hs hclock hp rfl fun q s' hmerged hs' => ?_
    -- what was merged is still there when its reviewers are looked up
    have hmergedId := Program.find?_merged hs.integrity hmerged
    have hstored : ((Operation.merge draft.pullRequestId).on
        ⟨t, s.supply⟩).2.tables.pullRequests.find? q.id = some q := by
      rw [hs'.integrity.pullRequestKeys _ q hmergedId]
      exact hmergedId
    refine responds_query (q := .review q.id) hs' (fun f hf => ?_)
      fun review s'' _ hs'' => hok hs'' (.head _)
    have hreview := Program.on_review (w := ⟨_, s'.supply⟩) hstored
    exact nomatch (congrArg Prod.fst hreview).symm.trans hf
  | reassign =>
    refine responds_answerBody hs rfl (fun _ => (ReassignDraft.finds _).keepsTo) fun draft _ => ?_
    have hp : (Command.reassign draft.pullRequestId draft.oldUserId r.draws).Proper
        ⟨t, s.supply⟩ := trivial
    exact responds_command hs hclock hp rfl fun replacement s' _ hs' => hok hs' (.head _)

end Course

/-! ## Requests one after the other -/

/-- A request with what the surroundings hand out while it is served. -/
structure Visit where
  request : Request
  supply : Supply

namespace Visit

/-- Serve a request. -/
def serve (name : String) (v : Visit) : Course Response := do
  modify fun s => { s with supply := v.supply }
  serveAny (Course.desk name) v.request

/-- The clock has the common offset, and a new team is not handed the identifier of a stored one. -/
structure Proper (o : Int) (t : Tables) (v : Visit) : Prop where
  clock : v.supply.last.offset = some o
  fresh : t.teams.find? v.supply.freshId.1 = none

/-- The endpoint that a request is sent to. -/
def SentTo (e : Endpoint) (v : Visit) : Prop :=
  destination v.request.method v.request.path = .endpoint e

variable {name : String} {o : Int} {t : Tables} {s : Session} {v : Visit}

theorem run_serve (name : String) (v : Visit) (s : Session) : (v.serve name).run s =
    (serveAny (Course.desk name) v.request).run { s with supply := v.supply } := rfl

theorem responds (hs : s.Serves name o t) (hv : v.Proper o t) :
    Course.Responds name o (v.serve name) s fun r =>
      ∀ e, v.SentTo e → r.Expected e v.request := by
  have hs' : Session.Serves name o t { s with supply := v.supply } :=
    ⟨Task.supply_rests hs.rests v.supply, hs.integrity, hs.clock⟩
  unfold Course.Responds
  rw [run_serve]
  by_cases hsent : ∃ e, v.SentTo e
  · obtain ⟨e, he⟩ := hsent
    obtain ⟨r, s'', t', hrun, hs'', hr⟩ :=
      Course.responds_serveAt hs' hv.clock hv.fresh e v.request
    rw [← serveAny_endpoint he] at hrun
    refine ⟨r, s'', t', hrun, hs'', fun e' he' => ?_⟩
    obtain rfl : e = e' := Destination.endpoint.inj (he.symm.trans he')
    exact hr
  · rw [not_exists] at hsent
    obtain ⟨r, hserve⟩ := exists_serveAny_eq hsent (Course.desk name)
    rw [hserve]
    exact Course.responds_pure hs' fun e he => absurd he (hsent e)

/-- A team whose name is an infinite number: the answer would have to show the number. -/
theorem internal_of_infinite_name {n : Number} (hn : n.isFinite = false) (sent : v.SentTo .addTeam)
    (hbody : v.request.body = .document (.object [("team_name", .number n)]))
    (room : 0 < v.request.nesting.read) (name : String) (s : Session) :
    ∃ s', (v.serve name).run s = some (.internal, s') := by
  have hreadable : (Json.object [("team_name", .number n)]).isReadable v.request.nesting.read = true := by
    cases n with
    | int => cases hn
    | decimal | infinite | undefined => simp [Json.isReadable, Json.membersReadable, room]
  have hread : readBody TeamDraft.ofJson v.request =
      .issues [⟨.textType, [.key "body", .key "team_name"], .number n⟩] := by
    rw [readBody, hbody, Body.read, if_pos hreadable]
    rfl
  have huntold : ¬ ([⟨.textType, [.key "body", .key "team_name"], .number n⟩].all fun i : Issue =>
      i.subject.isWritable v.request.nesting.told) = true := by
    simp [Json.isWritable, hn]
  obtain ⟨es, hrefuse⟩ := Course.run_refuse name v.request
    (.interrupted "an issue cannot be told") { s with supply := v.supply }
  refine ⟨_, Eq.trans ?_ hrefuse⟩
  rw [run_serve, serveAny_endpoint sent, serveAt, hread, answerReading, if_neg huntold]

example : Json.Reader.read 1 "\x7b\"team_name\": 1e400\x7d" =
    .ok (.object [("team_name", .number (.decimal 1 400))]) := by cbv

end Visit

/-- Requests are served one after the other on tables that were empty in the beginning. -/
inductive Service (name : String) (o : Int) : List Visit → Session → Prop where
  | start {s : Session} (rests : s.Rests name .empty) : Service name o [] s
  | visit {vs : List Visit} {v : Visit} {s s' : Session} {t : Tables} {r : Response}
      (past : Service name o vs s) (rests : s.Rests name t) (proper : v.Proper o t)
      (served : (v.serve name).run s = some (r, s')) : Service name o (vs ++ [v]) s'

namespace Service

variable {name : String} {o : Int} {vs : List Visit} {s : Session}

/-- **The service can always go on serving.** -/
theorem serves (h : Service name o vs s) : ∃ t, s.Serves name o t := by
  induction h with
  | start rests => exact ⟨.empty, rests, Tables.integrity_empty, fun k p hp => nomatch hp⟩
  | @visit vs v s s' t r past rests proper served ih =>
    obtain ⟨t', hs⟩ := ih
    obtain rfl : t' = t := hs.rests.unique rests
    obtain ⟨r', s'', t'', hrun, hs'', -⟩ := Visit.responds hs proper
    rw [served] at hrun
    cases hrun
    exact ⟨t'', hs''⟩

/-- **Every response is a documented one**, as long as the bodies that are read are plain: whatever was
served before, a request to an endpoint is answered, and other requests can come after it. A body that
cannot be read for its size, or cannot be told again, is the one that can bring about another response. -/
theorem answers_as_documented (past : Service name o vs s) {t : Tables} (rests : s.Rests name t)
    {v : Visit} (proper : v.Proper o t) {e : Endpoint} (sent : v.SentTo e) :
    ∃ response s', (v.serve name).run s = some (response, s') ∧ Service name o (vs ++ [v]) s' ∧
      (response.Documented e ∨
        ¬ v.request.PlainFor e ∧ (response = .internal ∨ response = .unparsed)) := by
  obtain ⟨t', hs⟩ := past.serves
  obtain rfl : t' = t := hs.rests.unique rests
  obtain ⟨response, s', t'', served, -, hresponse⟩ := Visit.responds hs proper
  exact ⟨response, s', served, .visit past rests proper served, hresponse e sent⟩

/-- A team is created. -/
def founding : Visit where
  request := {
    method := "POST"
    path := "/team/add"
    body := .document (TeamDraft.toJson
      ⟨"core", [⟨.ofNat 1, "ann", true⟩, ⟨.ofNat 2, "bob", true⟩]⟩) }
  supply := ⟨⟨0, some 0⟩, 1, [], 0⟩

/-- One of the team opens a pull request. -/
def opening : Visit where
  request := {
    method := "POST"
    path := "/pullRequest/create"
    body := .document (PullRequestDraft.toJson ⟨.ofNat 7, "fix", .ofNat 1⟩) }
  supply := ⟨⟨0, some 0⟩, 1, [], 1⟩

/-- The second request of the example comes when the first team is stored. -/
theorem fresh_opening {r : Response} {s' : Session} {t : Tables}
    (h : (founding.serve "rota").run (Session.holding "rota" .empty default) = some (r, s'))
    (rests : s'.Rests "rota" t) : t.teams.find? opening.supply.freshId.1 = none := by
  have hall : (((founding.serve "rota").run (Session.holding "rota" .empty default)).bind fun p =>
      (p.2.database "rota").committed?).all
        (fun t => t.teams.find? opening.supply.freshId.1 = none) = true := by
    decide +kernel
  obtain ⟨v, hv, -, -, rfl⟩ := rests.tables
  rw [h, Option.bind_some, hv] at hall
  exact of_decide_eq_true hall

theorem documented_opening : ∃ s response s', Service "rota" 0 [founding] s ∧
    (opening.serve "rota").run s = some (response, s') ∧ response.Documented .openPullRequest := by
  have hrests := Session.rests_holding "rota" .empty default
  obtain ⟨r, s, hserved, hpast, -⟩ :=
    answers_as_documented (.start hrests) hrests (v := founding) ⟨rfl, rfl⟩ (e := .addTeam) rfl
  obtain ⟨t, hs⟩ := hpast.serves
  obtain ⟨response, s', hserved', -, hdocumented⟩ :=
    answers_as_documented hpast hs.rests (v := opening) ⟨rfl, fresh_opening hserved hs.rests⟩
      (e := .openPullRequest) rfl
  have hplain : opening.request.Plain := Request.plain_of_document rfl (by decide +kernel) (by decide +kernel)
  refine ⟨s, response, s', hpast, hserved', ?_⟩
  exact hdocumented.resolve_right fun h => h.1 fun _ => hplain

end Service

end ReviewRota
