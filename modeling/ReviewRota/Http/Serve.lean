import ReviewRota.Http.Route
import ReviewRota.Json.Reader
import ReviewRota.Operation

/-!
# Serving requests

A request is routed, its body or parameters are read, one call of the service is made (two for a
merge, whose answer shows the reviewers as well), and the outcome becomes a response. A refusal is
answered with its status, code and text. Any other failure is answered with the same words, whatever
its own text: what happens below the service stays there.
-/

namespace ReviewRota.Http

/-- Someone who makes the calls of the service and takes down its events. -/
structure Desk (m : Type → Type) where
  command : (c : Command) → m (Except Failure c.Result)
  query : (q : Query) → m (Except Failure q.Result)
  report : Event → m Unit

/-- What is read of a request: a value, issues, or a body that cannot be read at all. -/
inductive Reading (α : Type) where
  | value (a : α)
  | issues (is : List Issue)
  | unreadable

namespace Reading

/-- A checked value as what is read of the part of a request. -/
def ofChecked (part : String) : Checked α → Reading α
  | .valid a => value a
  | .invalid is => issues (is.map (Issue.under (.key part)))

/-- A single issue with a part of a request. -/
def issue (kind : IssueKind) (place : List String) (subject : Json) : Reading α :=
  issues [⟨kind, place.map .key, subject⟩]

end Reading

/-- The text of a body without a byte order mark in front. -/
def withoutMark (s : String) : String :=
  match s.toList with
  | '\ufeff' :: rest => String.ofList rest
  | _ => s

/-- The document in a body, unless there is none. -/
def Body.read (room : Nat) : Body → Except Json.Reader.Refusal (Option Json)
  | .absent | .text "" => .ok none
  | .document j => if j.isReadable room then .ok (some j) else .error .nested
  | .text s => (Json.Reader.read room (withoutMark s)).map some

/-- Read the body of a request. -/
def readBody (read : IssueKind → Json → Checked α) (r : Request) : Reading α :=
  match r.body.read r.nesting.read with
  | .ok (some j) => .ofChecked "body" (read .notRequestObject j)
  | .ok none => .issue .missing ["body"] .null
  | .error .malformed => .issue .notDocument ["body"] (.object [])
  | .error _ => .unreadable

/-- Read a parameter of the query. -/
def readParameter (name : String) (read : Json → Checked α) (r : Request) : Reading α :=
  match r.parameter? name with
  | some s => .ofChecked "query" ((read (.text s)).under (.key name))
  | none => .issue .missing ["query", name] .null

section
variable {m : Type → Type} [Monad m]

def refuse (desk : Desk m) (r : Request) : Failure → m Response
  | .refused f => do
    let status := f.kind.status
    desk.report ⟨.info, "request rejected",
      [("path", .text r.path), ("code", .text f.kind.code), ("status_code", .int status)]⟩
    return .of status f.body
  | _ => do
    desk.report ⟨.error, "request failed",
      [("path", .text r.path), ("method", .text r.method), ("exc_info", .bool true)]⟩
    return .internal

/-- The response to what is read of a request. Issues are answered with the parts of the request that
they are about; when such a part cannot be told again, the answer itself fails. -/
def answerReading (desk : Desk m) (r : Request) (reading : Reading α) (go : α → m Response) : m Response :=
  match reading with
  | .value a => go a
  | .issues is =>
    if is.all fun i => i.subject.isWritable r.nesting.told then return .issues is
    else refuse desk r (.interrupted "an issue cannot be told")
  | .unreadable => return .detail 400 "There was an error parsing the body"

/-- The response to the outcome of a call. -/
def answerOutcome (desk : Desk m) (r : Request) (outcome : Except Failure α) (go : α → m Response) :
    m Response :=
  match outcome with
  | .ok a => go a
  | .error f => refuse desk r f

/-- Serve a request at an endpoint. -/
def serveAt (desk : Desk m) (r : Request) : Endpoint → m Response
  | .addTeam => answerReading desk r (readBody TeamDraft.ofJson r) fun draft => do
    answerOutcome desk r (← desk.command (.createTeam draft)) fun roster =>
      return .of 201 (.object [("team", roster.answer)])
  | .getTeam => answerReading desk r (readParameter "team_name" Field.text r) fun name => do
    answerOutcome desk r (← desk.query (.team name)) fun roster => return .of 200 roster.answer
  | .setActive => answerReading desk r (readBody ActivityDraft.ofJson r) fun draft => do
    answerOutcome desk r (← desk.command (.setActive draft.userId draft.isActive)) fun user =>
      return .of 200 (.object [("user", user.answer)])
  | .getReview => answerReading desk r (readParameter "user_id" Field.identifier r) fun id => do
    answerOutcome desk r (← desk.query (.assignedReviews id)) fun prs =>
      return .of 200 (.object [("user_id", .text id.text),
        ("pull_requests", .list (prs.map PullRequestSummary.answer))])
  | .openPullRequest => answerReading desk r (readBody PullRequestDraft.ofJson r) fun draft => do
    let call := Command.openPullRequest draft.pullRequestId draft.pullRequestName draft.authorId r.draws
      usualReviewers
    answerOutcome desk r (← desk.command call) fun review =>
      return .of 201 (.object [("pr", review.answer)])
  | .mergePullRequest => answerReading desk r (readBody MergeDraft.ofJson r) fun draft => do
    answerOutcome desk r (← desk.command (.merge draft.pullRequestId)) fun pr => do
      answerOutcome desk r (← desk.query (.review pr.id)) fun review =>
        return .of 200 (.object [("pr", review.answer)])
  | .reassign => answerReading desk r (readBody ReassignDraft.ofJson r) fun draft => do
    let call := Command.reassign draft.pullRequestId draft.oldUserId r.draws
    answerOutcome desk r (← desk.command call) fun replacement =>
      return .of 200 (.object [("pr", replacement.answer), ("replaced_by", .text replacement.replacedBy.text)])

/-- Serve a request. The answer to a request for the head alone has no body. -/
def serve (desk : Desk m) (r : Request) : m Response := do
  let response ← match destination r.method r.path with
    | .endpoint e => serveAt desk r e
    | .wrongMethod => return .detail 405 "Method Not Allowed"
    | .elsewhere path => return ⟨307, none, some ("http://test" ++ path ++ locationQuery r.parameters)⟩
    | .nowhere => return .detail 404 "Not Found"
  return response

/-- Serve a request whose method can be `HEAD`, which takes the body off the answer. -/
def serveAny (desk : Desk m) (r : Request) : m Response := do
  let response ← serve desk r
  if r.method = "HEAD" then return { response with body := none } else return response

end

end ReviewRota.Http
