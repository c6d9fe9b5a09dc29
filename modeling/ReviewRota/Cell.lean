import ReviewRota.Failure
import ReviewRota.Field
import ReviewRota.Json.Writer

/-!
# Cells

What the store tells of the pairs of a pull request and a reviewer: the set of the cells of a column
of identifiers, as they stand there. A cell that holds no identifier is not refused when it is looked
up. It comes to light where a call needs the order of the cells or shows them.
-/

namespace ReviewRota

/-- A place in a column of identifiers, with the value that stands there. -/
inductive Cell where
  | identifier (i : Identifier)
  /-- A value that is no identifier. -/
  | other (j : Json)
deriving Inhabited

namespace Cell

def identifier? : Cell → Option Identifier
  | identifier i => some i
  | other _ => none

def other? : Cell → Option Json
  | identifier _ => none
  | other j => some j

def toJson : Cell → Json
  | identifier i => .text i.text
  | other j => j

/-- The identifier that a cell is read as. -/
def read : Cell → Checked Identifier
  | identifier i => .valid i
  | other j => Field.identifier j

/-- The type of a cell that no set can hold. -/
def unfit? : Cell → Option String
  | other (.list _) => some "list"
  | other (.object _) => some "dict"
  | _ => none

/-- The identifiers that stand in cells. -/
def ids (cs : List Cell) : List Identifier := cs.filterMap identifier?

/-- Cells without repetition: the set of the identifiers in them, and then the other values in the order
in which they were listed. -/
def setOf (cs : List Cell) : List Cell :=
  (Identifier.setOf (ids cs)).map identifier ++
    ((cs.filterMap other?).eraseDupsBy fun i j => i.write = j.write).map other

/-- Two cells have an order. Values of different kinds have none. -/
def comparable : Cell → Cell → Bool
  | identifier _, identifier _ => true
  | other (.text _), other (.text _) => true
  | other a, other b => a.isNumeric && b.isNumeric
  | _, _ => false

/-- The order of cells that have one. Numbers stay as they are listed: none of them is read as
an identifier, in whatever order. -/
def le : Cell → Cell → Bool
  | identifier a, identifier b => a.le b
  | other (.text a), other (.text b) => a ≤ b
  | _, _ => true

/-- The identifiers that cells are shown as: in order, and each one read. -/
def shown (cs : List Cell) : Except Failure (List Identifier) :=
  if cs.Pairwise fun c d => c.comparable d then
    match (Checked.all ((cs.mergeSort le).zipIdx.map fun (c, i) => c.read.under (.index i))).under
      (.key "reviewers") with
    | .valid ids => .ok ids
    | .invalid is => .error (.invalid is)
  else .error .incomparableCells

@[simp] theorem ids_map_identifier (is : List Identifier) : ids (is.map identifier) = is := by
  rw [ids, List.filterMap_map]
  exact List.filterMap_some

theorem setOf_map_identifier (is : List Identifier) :
    setOf (is.map identifier) = (Identifier.setOf is).map identifier := by
  have hnone : (is.map identifier).filterMap other? = [] := by simp [other?]
  rw [setOf, ids_map_identifier, hnone, List.eraseDupsBy_nil, List.map_nil, List.append_nil]

/-- A set holds the identifiers of the cells that it is made of. -/
theorem ids_setOf (cs : List Cell) : ids (setOf cs) = Identifier.setOf (ids cs) := by
  have hnone : ∀ js : List Json, ids (js.map other) = [] := by simp [ids, identifier?]
  have happend : ids (setOf cs) = _ := List.filterMap_append
  rw [happend, ← ids, ids_map_identifier]
  exact (congrArg _ (hnone _)).trans (List.append_nil _)

theorem mem_ids {cs : List Cell} {i : Identifier} : i ∈ ids cs ↔ .identifier i ∈ cs := by
  rw [ids, List.mem_filterMap]
  constructor
  · rintro ⟨_ | _, hc, h⟩
    · exact Option.some.inj h ▸ hc
    · cases h
  · exact fun h => ⟨_, h, rfl⟩

/-- Identifiers are shown in increasing order. -/
@[simp] theorem shown_map_identifier (is : List Identifier) :
    shown (is.map identifier) = .ok (is.mergeSort Identifier.le) := by
  have hcomparable : (is.map identifier).Pairwise fun c d => (c.comparable d : Prop) := by
    rw [List.pairwise_map]
    exact List.pairwise_of_forall fun _ _ => rfl
  have hsorted : (is.mergeSort Identifier.le).map identifier = (is.map identifier).mergeSort le :=
    List.map_mergeSort fun _ _ _ _ => rfl
  have hread : ∀ (ids : List Identifier) (n : Nat),
      Checked.all (((ids.map identifier).zipIdx n).map fun (c, i) => c.read.under (.index i)) = .valid ids := by
    intro ids
    induction ids with
    | nil => exact fun _ => rfl
    | cons a ids ih =>
      intro n
      exact (Checked.all_cons_valid a _).trans (congrArg _ (ih (n + 1)))
  rw [shown, if_pos hcomparable, ← hsorted, hread]
  rfl

end Cell

end ReviewRota
