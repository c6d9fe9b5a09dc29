import ReviewRota.Issue
import ReviewRota.Identifier
import ReviewRota.Text.Quoted

/-!
# Failures

Why a call does not return. A refusal is a failure that the service itself decides on: it has one
of fourteen kinds, ordered in a small hierarchy, and it can name what it is about. All other
failures come from below or from broken data, and their texts are never shown to a client.
-/

namespace ReviewRota

inductive RefusalKind where
  | service
  | notFound
  | conflict
  | invalidState
  | reviewerNotAssigned
  | noCandidate
  | authorNotFound
  | teamNotFound
  | userNotFound
  | pullRequestNotFound
  | teamExists
  | usernameTaken
  | pullRequestExists
  | pullRequestMerged
deriving DecidableEq

namespace RefusalKind

def parent? : RefusalKind → Option RefusalKind
  | service => none
  | notFound | conflict | invalidState | reviewerNotAssigned | noCandidate => some service
  | authorNotFound | teamNotFound | userNotFound | pullRequestNotFound => some notFound
  | teamExists | usernameTaken | pullRequestExists => some conflict
  | pullRequestMerged => some invalidState

/-- A kind and all more general ones, from the most special to the most general. The hierarchy has
three levels. -/
def lineage (k : RefusalKind) : List RefusalKind :=
  match k.parent? with
  | none => [k]
  | some p =>
    match p.parent? with
    | none => [k, p]
    | some g => [k, p, g]

/-- A kind is some other kind when that one is among its more general ones. -/
def isA (k general : RefusalKind) : Bool := k.lineage.contains general

/-- The code that a client sees. -/
def code : RefusalKind → String
  | service => "INTERNAL"
  | notFound | authorNotFound | teamNotFound | userNotFound | pullRequestNotFound => "NOT_FOUND"
  | conflict | usernameTaken => "CONFLICT"
  | invalidState => "INVALID_STATE"
  | reviewerNotAssigned => "NOT_ASSIGNED"
  | noCandidate => "NO_CANDIDATE"
  | teamExists => "TEAM_EXISTS"
  | pullRequestExists => "PR_EXISTS"
  | pullRequestMerged => "PR_MERGED"

/-- The message of a refusal that brings none of its own. -/
def message : RefusalKind → String
  | service => "internal server error"
  | notFound => "entity not found"
  | conflict => "entity already exists"
  | invalidState => "operation is not allowed in the current state"
  | reviewerNotAssigned => "reviewer is not assigned to this pull request"
  | noCandidate => "no active replacement candidate in team"
  | authorNotFound => "author not found"
  | teamNotFound => "team not found"
  | userNotFound => "user not found"
  | pullRequestNotFound => "pull request not found"
  | teamExists => "team already exists"
  | usernameTaken => "username already taken in team"
  | pullRequestExists => "pull request already exists"
  | pullRequestMerged => "cannot reassign on merged pull request"

/-- The status of the answer to a client, where a kind has one. -/
def ownStatus? : RefusalKind → Option Nat
  | teamExists => some 400
  | notFound => some 404
  | conflict | invalidState | reviewerNotAssigned | noCandidate => some 409
  | _ => none

/-- The status of the answer to a client: that of the most special kind which has one. -/
def status (k : RefusalKind) : Nat := (k.lineage.findSome? ownStatus?).getD 500

end RefusalKind

inductive Subject where
  | text (s : String)
  | number (n : Int)
  | entity (id : Identifier)
  /-- A pull request and a user. -/
  | pair (pullRequest user : Identifier)
deriving DecidableEq

def Subject.show : Subject → String
  | text s => s
  | number n => toString n
  | entity id => id.text
  | pair p u => "(UUID('" ++ p.text ++ "'), UUID('" ++ u.text ++ "'))"

/-- A failure that the service decides on. -/
structure Refusal where
  kind : RefusalKind
  /-- The message, if it is not that of the kind. -/
  wording : Option String := none
  subject : Option Subject := none
deriving DecidableEq

namespace Refusal

def message (r : Refusal) : String := r.wording.getD r.kind.message

/-- The message with the subject after it, if there is one. -/
def text (r : Refusal) : String :=
  match r.subject with
  | none => r.message
  | some s => r.message ++ ": " ++ s.show

def body (r : Refusal) : Json :=
  .object [("error", .object [("code", .text r.kind.code), ("message", .text r.text)])]

/-- A refusal about an entity, in the words of its kind. -/
def about (kind : RefusalKind) (id : Identifier) : Refusal := ⟨kind, none, some (.entity id)⟩

end Refusal

/-- Why a call does not return. -/
inductive Failure where
  | refused (r : Refusal)
  /-- A document or a row is not what it has to be. -/
  | invalid (issues : List Issue)
  /-- Something below the service broke off, with a text of its own. -/
  | interrupted (text : String)
  /-- The database refused a duplicate, with a text of its own. -/
  | duplicate (text : String)
  /-- A table or a row has no column of that name. -/
  | unknownColumn (name : String)
  /-- Values were given for columns that a table does not have. -/
  | unusedColumns (names : List String)
  /-- A column was compared with a set that is no list. -/
  | notASet (shown : String)
  /-- A choice among nothing. -/
  | emptyChoice
  /-- A merged pull request carries no time of its merge. -/
  | undatedMerge
  /-- Two instants have no order, because only one of their offsets is known. -/
  | incomparableInstants
  /-- Values of a column of identifiers have no order, because they are of several kinds. -/
  | incomparableCells
  /-- A value of a column of identifiers is of a type that sets cannot hold. -/
  | noElement (type : String)

namespace Failure

/-- A refusal of a kind, without a subject and in the words of the kind. -/
def plain (kind : RefusalKind) : Failure := .refused ⟨kind, none, none⟩

/-- A refusal of a kind about an entity. -/
def about (kind : RefusalKind) (id : Identifier) : Failure := .refused (.about kind id)

/-- A refusal of a kind about a name. -/
def named (kind : RefusalKind) (name : String) : Failure := .refused ⟨kind, none, some (.text name)⟩

/-- A refusal of a kind about an entity, in other words. -/
def worded (kind : RefusalKind) (wording : String) (subject : Subject) : Failure :=
  .refused ⟨kind, some wording, some subject⟩

/-- The failure is a refusal of a kind or of a more special one. -/
def isA (kind : RefusalKind) : Failure → Bool
  | .refused r => r.kind.isA kind
  | _ => false

def text : Failure → String
  | .refused r => r.text
  | .invalid _ => "validation failed"
  | .interrupted s => s
  | .duplicate s => s
  | .unknownColumn name => Text.quoted name
  | .unusedColumns names => "Unconsumed column names: " ++ String.intercalate ", " names
  | .notASet s =>
    "IN expression list, SELECT construct, or bound parameter object expected, got " ++ s ++ "."
  | .emptyChoice => "Cannot choose from an empty sequence"
  | .undatedMerge => "'NoneType' object has no attribute 'isoformat'"
  | .incomparableInstants => "can't compare offset-naive and offset-aware datetimes"
  | .incomparableCells => "'<' not supported between instances of different types"
  | .noElement type => "unhashable type: '" ++ type ++ "'"

/-- The failure that takes the place of a refusal of some kind; any other failure stays. -/
def replacing (kind : RefusalKind) (other : Failure) (f : Failure) : Failure :=
  if f.isA kind then other else f

end Failure

end ReviewRota
