import ReviewRota.Json.Basic

/-!
# Fields of an object

The members of an object when their names are pairwise different, so that it does not matter which of
them a look-up finds first. Setting a field that is there replaces its value and keeps its place.

The view is `value?`; the main statements say what it is after a field was set or taken away.
-/

namespace ReviewRota.Json

variable {name key : Name} {value : Json} {ms : List (Name × Json)}

theorem lookup?_cons :
    lookup? name ((key, value) :: ms) = (lookup? name ms).or (if key = name then some value else none) := by
  cases h : lookup? name ms <;> simp [lookup?, h]

theorem lookup?_cons_of_ne (h : key ≠ name) : lookup? name ((key, value) :: ms) = lookup? name ms := by
  rw [lookup?_cons, if_neg h, Option.or_none]

theorem lookup?_eq_none : lookup? name ms = none ↔ name ∉ ms.map Prod.fst := by
  induction ms with
  | nil => simp [lookup?]
  | cons m ms ih =>
    obtain ⟨key, v⟩ := m
    rw [lookup?_cons, Option.or_eq_none_iff, ih, List.map_cons, List.mem_cons, not_or, and_comm,
      eq_comm (a := name)]
    simp

theorem mem_names_setMember :
    key ∈ (setMember name value ms).map Prod.fst ↔ key = name ∨ key ∈ ms.map Prod.fst := by
  induction ms with
  | nil => simp [setMember]
  | cons m ms ih =>
    obtain ⟨k, v⟩ := m
    by_cases h : k = name
    · subst h; simp [setMember]
    · rw [setMember, if_neg h, List.map_cons, List.map_cons, List.mem_cons, List.mem_cons, ih]
      exact or_left_comm

theorem nodup_setMember (h : (ms.map Prod.fst).Nodup) :
    ((setMember name value ms).map Prod.fst).Nodup := by
  induction ms with
  | nil => simp [setMember]
  | cons m ms ih =>
    obtain ⟨k, v⟩ := m
    rw [List.map_cons, List.nodup_cons] at h
    by_cases hk : k = name
    · rw [setMember, if_pos hk, List.map_cons, List.nodup_cons]
      exact h
    · rw [setMember, if_neg hk, List.map_cons, List.nodup_cons, mem_names_setMember]
      exact ⟨fun hm => hm.elim hk h.1, ih h.2⟩

theorem lookup?_setMember (h : (ms.map Prod.fst).Nodup) :
    lookup? key (setMember name value ms) = if key = name then some value else lookup? key ms := by
  induction ms with
  | nil => simp [setMember, lookup?, eq_comm]
  | cons m ms ih =>
    obtain ⟨k, v⟩ := m
    rw [List.map_cons, List.nodup_cons] at h
    by_cases hk : k = name
    · rw [setMember, if_pos hk]
      by_cases hkey : key = name
      · -- the name does not occur further on, where it would count instead
        rw [if_pos hkey, lookup?_cons, if_pos (hk.trans hkey.symm),
          lookup?_eq_none.mpr (hkey ▸ hk ▸ h.1), Option.none_or]
      · have hne : k ≠ key := fun he => hkey (he.symm.trans hk)
        rw [if_neg hkey, lookup?_cons_of_ne hne, lookup?_cons_of_ne hne]
    · rw [setMember, if_neg hk, lookup?_cons, ih h.2]
      by_cases hkey : key = name
      · rw [if_pos hkey, if_pos hkey, Option.some_or]
      · rw [if_neg hkey, if_neg hkey, lookup?_cons]

theorem lookup?_filter (hidden : Name → Bool) :
    lookup? key (ms.filter fun m => !hidden m.1) = if hidden key then none else lookup? key ms := by
  induction ms with
  | nil => simp [lookup?]
  | cons m ms ih =>
    obtain ⟨k, v⟩ := m
    cases hk : hidden k with
    | true =>
      rw [List.filter_cons_of_neg (by simp [hk]), ih]
      split
      · rfl
      · rename_i hkey
        have hne : k ≠ key := by
          rintro rfl
          exact hkey hk
        rw [lookup?_cons_of_ne hne]
    | false =>
      rw [List.filter_cons_of_pos (by simp [hk]), lookup?_cons, ih]
      split
      · rename_i hkey
        have hne : k ≠ key := by
          rintro rfl
          rw [hk] at hkey
          cases hkey
        rw [if_neg hne, Option.none_or]
      · rw [lookup?_cons]

/-- Members of an object, each under a name of its own. -/
structure Fields where
  members : List (Name × Json)
  /-- Every name occurs once. -/
  distinct : (members.map Prod.fst).Nodup

namespace Fields

def empty : Fields := ⟨[], .nil⟩

/-- The value of the field with a name. -/
def value? (name : Name) (f : Fields) : Option Json := lookup? name f.members

/-- The fields with one of them set to a value. -/
def set (name : Name) (value : Json) (f : Fields) : Fields :=
  ⟨setMember name value f.members, nodup_setMember f.distinct⟩

/-- The fields without those that are hidden. -/
def without (hidden : Name → Bool) (f : Fields) : Fields :=
  ⟨f.members.filter fun m => !hidden m.1, f.distinct.sublist (List.filter_sublist.map _)⟩

/-- Members as fields. Of several members with one name the last one counts. -/
def ofMembers (ms : List (Name × Json)) : Fields := ms.foldl (fun f m => f.set m.1 m.2) empty

variable {f : Fields}

@[simp] theorem value?_set : (f.set name value).value? key = if key = name then some value else f.value? key :=
  lookup?_setMember f.distinct

@[simp] theorem value?_without (hidden : Name → Bool) :
    (f.without hidden).value? key = if hidden key then none else f.value? key :=
  lookup?_filter hidden

end Fields

end ReviewRota.Json
