import ReviewRota.Entity.PullRequest
import ReviewRota.Entity.User
import ReviewRota.Failure

/-!
# Selection of reviewers

Reviewers are drawn at random among the eligible users of a team. Chance comes in as a list of
numbers, the draws: a choice among `n` things takes the next draw modulo `n`, and 0 once there are
no draws left. The pool is shuffled by exchanges from its last position downwards, and the first
reviewers of the shuffled pool are taken.
-/

namespace ReviewRota

/-- The draws that are still to be used. -/
abbrev Draws := List Nat

namespace Selection

/-- A number below `n`, and the draws after it. -/
def below (n : Nat) : Draws → Nat × Draws
  | [] => (0, [])
  | d :: ds => (d % n, ds)

/-- The list with two positions exchanged. -/
def exchange (xs : List α) (i j : Nat) : List α :=
  match xs[i]?, xs[j]? with
  | some a, some b => (xs.set i b).set j a
  | _, _ => xs

/-- The exchanges at position `i` and at all positions below it, downwards to position 1: each
position is exchanged with a drawn one that is not above it. -/
def shuffleFrom : Nat → List α → Draws → List α
  | 0, xs, _ => xs
  | i + 1, xs, ds =>
    let (j, rest) := below (i + 2) ds
    shuffleFrom i (exchange xs (i + 1) j) rest

/-- The list in the order that the draws give it. -/
def shuffle (xs : List α) (ds : Draws) : List α := shuffleFrom (xs.length - 1) xs ds

/-- The first `limit` elements; a negative limit leaves out that many at the end. -/
def upTo (limit : Int) (xs : List α) : List α :=
  if 0 ≤ limit then xs.take limit.toNat else xs.take (xs.length - (-limit).toNat)

/-- The active users that are not excluded, in the order of the list. -/
def eligible (users : List User) (exclude : List Identifier) : List Identifier :=
  (users.filter fun u => u.isActive && !exclude.contains u.id).map User.id

/-- The reviewers drawn from a pool. -/
def reviewers (candidates : List Identifier) (limit : Int) (ds : Draws) : List Identifier :=
  upTo limit (shuffle candidates ds)

/-- One candidate drawn from a pool. -/
def replacement (candidates : List Identifier) (ds : Draws) : Except Failure Identifier :=
  match candidates[(below candidates.length ds).1]? with
  | some c => .ok c
  | none => .error .emptyChoice

/-- A reviewer can be replaced on a pull request that is not merged, and only if he reviews it. -/
def checkReplaceable (p : PullRequest) (current : List Identifier) (old : Identifier) :
    Except Failure Unit :=
  if p.isMerged then .error (.about .pullRequestMerged p.id)
  else if !current.contains old then .error (.about .reviewerNotAssigned old)
  else .ok ()

end Selection

end ReviewRota
