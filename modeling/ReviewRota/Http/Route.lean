import ReviewRota.Http.Message
import ReviewRota.Text.Hex

/-!
# Routes

The seven endpoints, and how the method and the path of a request lead to one of them. Paths are
compared letter by letter. A known path with slashes after it is redirected to the path itself.
-/

namespace ReviewRota.Http

inductive Endpoint where
  | addTeam
  | getTeam
  | setActive
  | getReview
  | openPullRequest
  | mergePullRequest
  | reassign
deriving DecidableEq

namespace Endpoint

def all : List Endpoint := [addTeam, getTeam, setActive, getReview, openPullRequest, mergePullRequest, reassign]

def path : Endpoint → String
  | addTeam => "/team/add"
  | getTeam => "/team/get"
  | setActive => "/users/setIsActive"
  | getReview => "/users/getReview"
  | openPullRequest => "/pullRequest/create"
  | mergePullRequest => "/pullRequest/merge"
  | reassign => "/pullRequest/reassign"

def method : Endpoint → String
  | getTeam | getReview => "GET"
  | _ => "POST"

end Endpoint

inductive Destination where
  | endpoint (e : Endpoint)
  | wrongMethod
  | elsewhere (path : String)
  | nowhere
deriving DecidableEq

/-- The path without slashes at its end. -/
def withoutSlashes (path : String) : String :=
  String.ofList (path.toList.reverse.dropWhile (· = '/')).reverse

/-- Where a method and a path lead. -/
def destination (method path : String) : Destination :=
  match Endpoint.all.find? fun e => e.path = path with
  | some e => if e.method = method then .endpoint e else .wrongMethod
  | none =>
    let bare := withoutSlashes path
    if bare ≠ path && Endpoint.all.any (fun e => e.path = bare) then .elsewhere bare else .nowhere

/-- A byte of a parameter in a location: letters, digits and `_.-~` stand for themselves, a plus sign
for a blank, and all others are written by two hexadecimal digits. -/
def locationByte (b : UInt8) : List Char :=
  let c := Char.ofNat b.toNat
  if c.isAlphanum || ['_', '.', '-', '~'].contains c then [c]
  else if c = ' ' then ['+']
  else '%' :: (Text.hexDigits 2 b.toNat).map Char.toUpper

def locationText (s : String) : String :=
  String.ofList (s.toUTF8.toList.flatMap locationByte)

/-- Parameters as the end of a location. -/
def locationQuery (ps : List (String × String)) : String :=
  if ps.isEmpty then ""
  else "?" ++ String.intercalate "&" (ps.map fun (k, v) => locationText k ++ "=" ++ locationText v)

end ReviewRota.Http
