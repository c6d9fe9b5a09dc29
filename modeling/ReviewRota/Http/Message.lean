import ReviewRota.Json.Basic
import ReviewRota.Selection

/-!
# Requests and responses

A request brings its body as a document or as a text that is still to be read. A response has a
status, a body, and for a redirection the place to go to.
-/

namespace ReviewRota.Http

inductive Body where
  | absent
  | document (j : Json)
  | text (s : String)

/-- How deep documents may be nested when a request is served: that depends on the room which the calls
under way have left on the stack. -/
structure Nesting where
  /-- How deep lists and objects may stand in one another when a body is read. -/
  read : Nat := 900
  /-- How deep values may stand in one another when an answer is written. -/
  told : Nat := 900

/-- A request. The draws belong to the call that serves it. -/
structure Request where
  method : String
  path : String
  body : Body := .absent
  /-- The parameters of the query, in order. -/
  parameters : List (String × String) := []
  draws : Draws := []
  nesting : Nesting := {}

structure Response where
  status : Nat
  body : Option Json
  location : Option String := none

namespace Response

def of (status : Nat) (body : Json) : Response := ⟨status, some body, none⟩

/-- A response that only says what went wrong with the request as such. -/
def detail (status : Nat) (text : String) : Response := of status (.object [("detail", .text text)])

/-- The response to a call that failed in a way that is no client's business. -/
def internal : Response :=
  of 500 (.object [("error", .object [("code", .text "INTERNAL"), ("message", .text "internal server error")])])

/-- The response to a request that holds something wrong. -/
def issues (is : List Issue) : Response := of 422 (.object [("detail", .list (is.map Issue.toJson))])

end Response

/-- The last value of a parameter. -/
def Request.parameter? (name : String) (r : Request) : Option String :=
  (r.parameters.reverse.find? fun p => p.1 = name).map Prod.snd

end ReviewRota.Http
