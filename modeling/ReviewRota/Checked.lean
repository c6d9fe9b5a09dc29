import ReviewRota.Issue

/-!
# Checked values

The outcome of reading a document: a value, or everything that is wrong with the document. Reading
several parts gathers the issues of all of them, in the order of the parts; a rule about the whole
is asked only when every part is in order. The main statement is that checked values compose:
nothing is lost and the order is kept.
-/

namespace ReviewRota

/-- A value, or the issues that kept it from being read. -/
inductive Checked (α : Type) where
  | valid (a : α)
  | invalid (issues : List Issue)

namespace Checked

/-- Apply a function to a value. -/
def map (f : α → β) : Checked α → Checked β
  | valid a => valid (f a)
  | invalid is => invalid is

/-- Apply a checked function to a checked value; the issues of both are gathered. -/
def seq (f : Checked (α → β)) (a : Checked α) : Checked β :=
  match f, a with
  | valid f, valid a => valid (f a)
  | valid _, invalid is => invalid is
  | invalid is, valid _ => invalid is
  | invalid is, invalid js => invalid (is ++ js)

/-- Values that are read part by part. -/
instance : Applicative Checked where
  pure := valid
  map := map
  seq f a := seq f (a ())

/-- A single issue with the document itself. -/
def issue (kind : IssueKind) (subject : Json) : Checked α := invalid [⟨kind, [], subject⟩]

/-- The issues of a part, seen from the document that holds it. -/
def under (p : Place) : Checked α → Checked α
  | valid a => valid a
  | invalid is => invalid (is.map (Issue.under p))

/-- All of the values, or all of the issues. -/
def all : List (Checked α) → Checked (List α)
  | [] => valid []
  | c :: cs => seq (map List.cons c) (all cs)

/-- Ask for a further rule once a value is there. -/
def andThen (c : Checked α) (f : α → Checked β) : Checked β :=
  match c with
  | valid a => f a
  | invalid is => invalid is

/-- The value, if there is one. -/
def toOption : Checked α → Option α
  | valid a => some a
  | invalid _ => none

/-- The issues; none of a value. -/
def issues : Checked α → List Issue
  | valid _ => []
  | invalid is => is

@[simp] theorem seq_valid (f : α → β) (a : α) : seq (valid f) (valid a) = valid (f a) := rfl

@[simp] theorem all_nil : all ([] : List (Checked α)) = valid [] := rfl

theorem map_eq_valid {f : α → β} {c : Checked α} {b : β} :
    f <$> c = valid b ↔ ∃ a, c = valid a ∧ f a = b := by
  constructor
  · intro h
    cases c with
    | valid a => exact ⟨a, rfl, valid.inj h⟩
    | invalid is => cases h
  · rintro ⟨a, rfl, rfl⟩
    rfl

/-- Parts that are read together are read one by one. -/
theorem seq_eq_valid {f : Checked (α → β)} {c : Checked α} {b : β} :
    f <*> c = valid b ↔ ∃ g a, f = valid g ∧ c = valid a ∧ g a = b := by
  constructor
  · intro h
    cases f with
    | invalid is => cases c <;> cases h
    | valid g =>
      cases c with
      | invalid is => cases h
      | valid a => exact ⟨g, a, rfl, rfl, valid.inj h⟩
  · rintro ⟨g, a, rfl, rfl, rfl⟩
    rfl

theorem under_eq_valid {p : Place} {c : Checked α} {a : α} : c.under p = valid a ↔ c = valid a := by
  cases c with
  | valid b => rfl
  | invalid is => exact ⟨nofun, nofun⟩

/-- A rule is asked of a value that is there. -/
theorem andThen_eq_valid {c : Checked α} {f : α → Checked β} {b : β} :
    c.andThen f = valid b ↔ ∃ a, c = valid a ∧ f a = valid b := by
  cases c with
  | valid a => simp [andThen]
  | invalid is => simp [andThen]

/-- Reading a list gathers values or issues element by element. -/
theorem all_cons_valid (a : α) (cs : List (Checked α)) :
    all (valid a :: cs) = map (a :: ·) (all cs) := by
  cases h : all cs <;> simp [all, map, seq, h]

end Checked

end ReviewRota
