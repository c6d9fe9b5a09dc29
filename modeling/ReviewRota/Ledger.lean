import ReviewRota.Identifier

/-!
# Ledgers

Finite maps from identifiers, in the order in which the identifiers were first put in. Putting a
value under an identifier that is there replaces the value and keeps its place.

The view of a ledger is `find?`; the main statements say what `put` does to it, to the keys and to
their order.
-/

namespace ReviewRota

/-- A finite map from identifiers with an order of its keys. -/
structure Ledger (α : Type) where
  entries : List (Identifier × α)
  /-- Every key occurs once. -/
  distinct : (entries.map Prod.fst).Nodup

namespace Ledger

variable {α : Type}

def empty : Ledger α := ⟨[], .nil⟩

instance : Inhabited (Ledger α) := ⟨empty⟩

/-- The keys, in order. -/
def keys (l : Ledger α) : List Identifier := l.entries.map Prod.fst

/-- The values, in order. -/
def values (l : Ledger α) : List α := l.entries.map Prod.snd

/-- The value in a list of entries under a key. -/
def findIn (k : Identifier) : List (Identifier × α) → Option α
  | [] => none
  | (key, value) :: rest => if key = k then some value else findIn k rest

def find? (k : Identifier) (l : Ledger α) : Option α := findIn k l.entries

/-- There is a value under the key. -/
def contains (k : Identifier) (l : Ledger α) : Bool := (l.find? k).isSome

/-- A list of entries with a value put under a key. -/
def putIn (k : Identifier) (v : α) : List (Identifier × α) → List (Identifier × α)
  | [] => [(k, v)]
  | (key, value) :: rest => if key = k then (key, v) :: rest else (key, value) :: putIn k v rest

theorem mem_keys_putIn {k key : Identifier} {v : α} {es : List (Identifier × α)} :
    key ∈ (putIn k v es).map Prod.fst ↔ key = k ∨ key ∈ es.map Prod.fst := by
  induction es with
  | nil => simp [putIn]
  | cons e es ih =>
    obtain ⟨a, b⟩ := e
    by_cases h : a = k
    · subst h; simp [putIn]
    · simp only [putIn, h, if_false, List.map_cons, List.mem_cons, ih]
      exact or_left_comm

theorem nodup_putIn {k : Identifier} {v : α} {es : List (Identifier × α)}
    (h : (es.map Prod.fst).Nodup) : ((putIn k v es).map Prod.fst).Nodup := by
  induction es with
  | nil => simp [putIn]
  | cons e es ih =>
    obtain ⟨a, b⟩ := e
    rw [List.map_cons, List.nodup_cons] at h
    by_cases hk : a = k
    · simp only [putIn, hk, if_true, List.map_cons, List.nodup_cons]
      exact ⟨hk ▸ h.1, h.2⟩
    · rw [putIn, if_neg hk, List.map_cons, List.nodup_cons]
      exact ⟨fun hm => (mem_keys_putIn.1 hm).elim hk h.1, ih h.2⟩

/-- The ledger with a value put under a key. -/
def put (k : Identifier) (v : α) (l : Ledger α) : Ledger α := ⟨putIn k v l.entries, nodup_putIn l.distinct⟩

theorem findIn_putIn (k key : Identifier) (v : α) (es : List (Identifier × α)) :
    findIn key (putIn k v es) = if key = k then some v else findIn key es := by
  induction es with
  | nil => by_cases h : k = key <;> simp [putIn, findIn, h, eq_comm]
  | cons e es ih =>
    obtain ⟨a, b⟩ := e
    by_cases hk : a = k
    · by_cases h : key = k <;> simp_all [putIn, findIn, eq_comm]
    · by_cases h : a = key
      · have : key ≠ k := fun hc => hk (h.trans hc)
        simp [putIn, findIn, h, this]
      · simp [putIn, findIn, hk, h, ih]

/-- What is found after a value was put. -/
@[simp] theorem find?_put (k key : Identifier) (v : α) (l : Ledger α) :
    (l.put k v).find? key = if key = k then some v else l.find? key :=
  findIn_putIn k key v l.entries

theorem findIn_eq_some_iff {es : List (Identifier × α)} (h : (es.map Prod.fst).Nodup)
    {k : Identifier} {v : α} : findIn k es = some v ↔ (k, v) ∈ es := by
  induction es with
  | nil => simp [findIn]
  | cons e es ih =>
    obtain ⟨a, b⟩ := e
    rw [List.map_cons, List.nodup_cons] at h
    by_cases hk : a = k
    · subst hk
      have : (a, v) ∉ es := fun hm => h.1 (List.mem_map.2 ⟨(a, v), hm, rfl⟩)
      simp [findIn, this, eq_comm]
    · have : k ≠ a := fun hc => hk hc.symm
      simp [findIn, hk, ih h.2, this]

/-- Finding a value is being among the entries. -/
theorem find?_eq_some_iff (l : Ledger α) {k : Identifier} {v : α} :
    l.find? k = some v ↔ (k, v) ∈ l.entries :=
  findIn_eq_some_iff l.distinct

@[simp] theorem find?_empty (k : Identifier) : (empty : Ledger α).find? k = none := rfl

end Ledger

end ReviewRota
