import Mathlib.Data.List.Forall2
import Mathlib.Tactic.FinCases
import ReviewRota.Proofs.Outcome
import ReviewRota.Proofs.Readings
import ReviewRota.Proofs.Spellings

/-!
# What documents describe

A document describes a team when its members are there and stand for what they should: a name for a
text that is long enough once it is trimmed, an identifier for one of its spellings, a truth value
for a constant, a word or a number. Reading a document finds the team that the document describes,
and it fails when there is none. The rule about the members is asked of what was described, so it
sees names and identifiers that have one form left.
-/

namespace ReviewRota

namespace Field

/-! ## Fields -/

/-- A text that spells an identifier. -/
def IsIdentifier (j : Json) (i : Identifier) : Prop := ∃ s, j = .text s ∧ i.Spells s.toList

/-- A text with a name in it, between blanks. -/
def IsName (j : Json) (t : String) : Prop :=
  ∃ s, j = .text s ∧ t = Text.trim s ∧ 1 ≤ t.length ∧ t.length ≤ nameLimit

/-- A constant, one of the words in any case, or a number that is zero or one. -/
inductive IsTruth : Json → Bool → Prop where
  | constant (b : Bool) : IsTruth (.bool b) b
  | word {s : String} {b : Bool} (h : (s.map Char.toLower, b) ∈ truthWords) : IsTruth (.text s) b
  | zero {n : Number} (h : n.whole? = some 0) : IsTruth (.number n) false
  | one {n : Number} (h : n.whole? = some 1) : IsTruth (.number n) true

section

variable {α : Type} (P : Json → α → Prop)

/-- A list whose elements stand for the given values, one by one. -/
def IsList (j : Json) (as : List α) : Prop := ∃ xs, j = .list xs ∧ List.Forall₂ P xs as

/-- A member is there and stands for a value. -/
def Holds (name : String) (ms : List (Json.Name × Json)) (a : α) : Prop :=
  ∃ j, Json.lookup? name ms = some j ∧ P j a

/-- A member stands for a value, or it is not there and the value is the one for that case. -/
def HoldsOr (name : String) (value : α) (ms : List (Json.Name × Json)) (a : α) : Prop :=
  Holds P name ms a ∨ Json.lookup? name ms = none ∧ a = value

end

open Checked

theorem identifier_eq_valid {j : Json} {i : Identifier} :
    identifier j = valid i ↔ IsIdentifier j i := by
  constructor
  · intro h
    unfold identifier at h
    split at h
    · split at h
      · cases h
        exact ⟨_, rfl, Identifier.ofText?_eq_some.mp ‹_›⟩
      · cases h
    · cases h
    · cases h
  · rintro ⟨s, rfl, h⟩
    rw [identifier, Identifier.ofText?_eq_some.mpr h]

theorem name_eq_valid {j : Json} {t : String} : name j = valid t ↔ IsName j t := by
  constructor
  · intro h
    unfold name at h
    split at h
    · dsimp only at h
      split at h
      · cases h
      split at h
      · cases h
      · cases h
        exact ⟨_, rfl, rfl, by omega, by omega⟩
    · cases h
    · cases h
  · rintro ⟨s, rfl, rfl, hlow, hhigh⟩
    simp only [name]
    rw [if_neg (by omega), if_neg (by omega)]

/-- No word stands for both truth values. -/
theorem truthWord?_eq_some {s : String} {b : Bool} :
    truthWord? s = some b ↔ (s.map Char.toLower, b) ∈ truthWords := by
  rw [truthWord?]
  generalize s.map Char.toLower = w
  constructor
  · intro h
    obtain ⟨before, after, hwords, -⟩ := List.lookup_eq_some_iff.mp h
    rw [hwords]
    simp
  · intro h
    fin_cases h <;> decide

theorem truth_eq_valid {j : Json} {b : Bool} : truth j = valid b ↔ IsTruth j b := by
  constructor
  · intro h
    unfold truth at h
    split at h
    · cases h
      exact .constant b
    · split at h
      · cases h
        exact .word (truthWord?_eq_some.mp ‹_›)
      · cases h
    · cases h
    · split at h
      · rename_i k hwhole
        split at h
        · cases h
          subst k
          exact .zero hwhole
        split at h
        · cases h
          subst k
          exact .one hwhole
        · split at h <;> cases h
      · cases h
    · cases h
  · rintro (b | h | h | h)
    · rfl
    · rw [truth, truthWord?_eq_some.mpr h]
    · rw [truth, h]
      rfl
    · rw [truth, h]
      rfl

section

variable {α : Type} {read : Json → Checked α} {P : Json → α → Prop}

/-- Elements are read one by one, whatever the place of the first one is. -/
theorem all_eq_valid (h : ∀ j a, read j = valid a ↔ P j a) {xs : List Json} {as : List α} (n : Nat) :
    Checked.all ((xs.zipIdx n).map fun (x, i) => (read x).under (.index i)) = valid as ↔
      List.Forall₂ P xs as := by
  induction xs generalizing n as with
  | nil =>
    rw [List.forall₂_nil_left_iff]
    exact ⟨fun h => (valid.inj h).symm, fun h => h ▸ rfl⟩
  | cons x xs ih =>
    rw [List.zipIdx_cons, List.map_cons, List.forall₂_cons_left_iff]
    refine seq_eq_valid.trans ⟨?_, ?_⟩
    · rintro ⟨g, rest, hg, hrest, rfl⟩
      obtain ⟨a, ha, rfl⟩ := map_eq_valid.mp hg
      exact ⟨a, rest, (h x a).mp (under_eq_valid.mp ha), (ih (n + 1)).mp hrest, rfl⟩
    · rintro ⟨a, rest, ha, hrest, rfl⟩
      exact ⟨_, rest, map_eq_valid.mpr ⟨a, under_eq_valid.mpr ((h x a).mpr ha), rfl⟩,
        (ih (n + 1)).mpr hrest, rfl⟩

theorem list_eq_valid (h : ∀ j a, read j = valid a ↔ P j a) {j : Json} {as : List α} :
    list read j = valid as ↔ IsList P j as := by
  constructor
  · intro hj
    unfold list at hj
    split at hj
    · exact ⟨_, rfl, (all_eq_valid h 0).mp hj⟩
    · cases hj
  · rintro ⟨xs, rfl, hxs⟩
    exact (all_eq_valid h 0).mpr hxs

theorem required_eq_valid (h : ∀ j a, read j = valid a ↔ P j a) {name : String}
    {ms : List (Json.Name × Json)} {a : α} :
    required name read ms = valid a ↔ Holds P name ms a := by
  cases hname : Json.lookup? name ms with
  | some j => simp [required, Holds, hname, under_eq_valid, h]
  | none => simp [required, Holds, hname]

theorem defaulted_eq_valid (h : ∀ j a, read j = valid a ↔ P j a) {name : String} {value : α}
    {ms : List (Json.Name × Json)} {a : α} :
    defaulted name value read ms = valid a ↔ HoldsOr P name value ms a := by
  cases hname : Json.lookup? name ms with
  | some j => simp [defaulted, HoldsOr, Holds, hname, under_eq_valid, h]
  | none => simp [defaulted, HoldsOr, Holds, hname, eq_comm]

end

end Field

/-! ## Members -/

/-- A document describes a member of a team that is to be created. -/
inductive MemberDraft.Describes : Json → MemberDraft → Prop where
  | object {ms : List (Json.Name × Json)} {m : MemberDraft}
    (userId : Field.Holds Field.IsIdentifier "user_id" ms m.userId)
    (username : Field.Holds Field.IsName "username" ms m.username)
    (isActive : Field.HoldsOr Field.IsTruth "is_active" true ms m.isActive) :
    Describes (.object ms) m

/-- A document describes a team that is to be created, apart from the rule about its members. -/
inductive TeamDraft.Describes : Json → TeamDraft → Prop where
  | object {ms : List (Json.Name × Json)} {t : TeamDraft}
    (teamName : Field.Holds Field.IsName "team_name" ms t.teamName)
    (members : Field.HoldsOr (Field.IsList MemberDraft.Describes) "members" [] ms t.members) :
    Describes (.object ms) t

section

open Checked

variable {refusal : IssueKind} {j : Json}

theorem MemberDraft.ofJson_eq_valid {m : MemberDraft} :
    ofJson refusal j = valid m ↔ Describes j m := by
  constructor
  · intro h
    unfold ofJson Field.members at h
    split at h
    · obtain ⟨_, isActive, hrest, hactive, rfl⟩ := seq_eq_valid.mp h
      obtain ⟨_, username, hfirst, hname, rfl⟩ := seq_eq_valid.mp hrest
      obtain ⟨userId, hid, rfl⟩ := map_eq_valid.mp hfirst
      exact .object ((Field.required_eq_valid fun _ _ => Field.identifier_eq_valid).mp hid)
        ((Field.required_eq_valid fun _ _ => Field.name_eq_valid).mp hname)
        ((Field.defaulted_eq_valid fun _ _ => Field.truth_eq_valid).mp hactive)
    · cases h
  · rintro ⟨hid, hname, hactive⟩
    rw [ofJson, Field.members, (Field.required_eq_valid fun _ _ => Field.identifier_eq_valid).mpr hid,
      (Field.required_eq_valid fun _ _ => Field.name_eq_valid).mpr hname,
      (Field.defaulted_eq_valid fun _ _ => Field.truth_eq_valid).mpr hactive]
    rfl

theorem TeamDraft.fields_eq_valid {t : TeamDraft} :
    fields refusal j = valid t ↔ Describes j t := by
  constructor
  · intro h
    unfold fields Field.members at h
    split at h
    · obtain ⟨_, members, hfirst, hmembers, rfl⟩ := seq_eq_valid.mp h
      obtain ⟨teamName, hname, rfl⟩ := map_eq_valid.mp hfirst
      exact .object ((Field.required_eq_valid fun _ _ => Field.name_eq_valid).mp hname)
        ((Field.defaulted_eq_valid fun _ _ => Field.list_eq_valid fun _ _ =>
          MemberDraft.ofJson_eq_valid).mp hmembers)
    · cases h
  · rintro ⟨hname, hmembers⟩
    rw [fields, Field.members, (Field.required_eq_valid fun _ _ => Field.name_eq_valid).mpr hname,
      (Field.defaulted_eq_valid fun _ _ => Field.list_eq_valid fun _ _ =>
        MemberDraft.ofJson_eq_valid).mpr hmembers]
    rfl

/-- A document describes one team at most. -/
theorem TeamDraft.Describes.unique {t t' : TeamDraft} (h : Describes j t) (h' : Describes j t') :
    t = t' := by
  have hread : fields .notObject j = valid t := fields_eq_valid.mpr h
  exact valid.inj (hread.symm.trans (fields_eq_valid.mpr h'))

end

/-! ## Documents of drafts -/

theorem Field.IsName.text {j : Json} {t : String} (h : IsName j t) : IsName (.text t) t := by
  obtain ⟨s, -, rfl, hlow, hhigh⟩ := h
  exact ⟨_, rfl, (Text.trim_trim s).symm, hlow, hhigh⟩

theorem Field.IsName.trim_eq {j : Json} {t : String} (h : IsName j t) : Text.trim t = t := by
  obtain ⟨s, -, rfl, -⟩ := h
  exact Text.trim_trim s

/-- What was read is written in a way that is read again. -/
theorem MemberDraft.Describes.toJson {j : Json} {m : MemberDraft} (h : Describes j m) :
    Describes m.toJson m := by
  obtain ⟨-, ⟨_, -, hname⟩, -⟩ := h
  refine .object ⟨_, rfl, _, rfl, Identifier.ofText?_eq_some.mp (Identifier.ofText?_text _)⟩
    ⟨_, rfl, hname.text⟩ (.inl ⟨_, rfl, .constant _⟩)

theorem MemberDraft.Describes.map_toJson {xs : List Json} {members : List MemberDraft}
    (h : List.Forall₂ Describes xs members) :
    List.Forall₂ Describes (members.map MemberDraft.toJson) members := by
  induction h with
  | nil => exact .nil
  | cons hm _ ih => exact .cons hm.toJson ih

theorem TeamDraft.Describes.trim_teamName {j : Json} {t : TeamDraft} (h : Describes j t) :
    Text.trim t.teamName = t.teamName := by
  obtain ⟨⟨_, -, hname⟩, -⟩ := h
  exact hname.trim_eq

theorem TeamDraft.Describes.toJson {j : Json} {t : TeamDraft} (h : Describes j t) :
    Describes t.toJson t := by
  obtain ⟨⟨_, -, hname⟩, hmembers⟩ := h
  refine .object ⟨_, rfl, hname.text⟩ (.inl ⟨_, rfl, _, rfl, ?_⟩)
  rcases hmembers with ⟨_, -, xs, -, hxs⟩ | ⟨-, hnone⟩
  · exact MemberDraft.Describes.map_toJson hxs
  · rw [hnone]
    exact .nil

namespace TeamDraft

/-! ## Drafts of teams -/

variable {refusal : IssueKind} {j : Json} {t : TeamDraft}

/-- A team is read from the documents that describe it when it follows the rule. -/
theorem ofJson_eq_valid : ofJson refusal j = .valid t ↔ Describes j t ∧ t.Consistent := by
  rw [ofJson_eq, Checked.andThen_eq_valid]
  constructor
  · rintro ⟨t', hfields, hrule⟩
    obtain ⟨rfl, hconsistent⟩ := checkMembers_eq_valid.mp hrule
    exact ⟨fields_eq_valid.mp hfields, hconsistent⟩
  · rintro ⟨h, hconsistent⟩
    exact ⟨t, fields_eq_valid.mpr h, checkMembers_eq_valid.mpr ⟨rfl, hconsistent⟩⟩

/-- Once there is a team, the rule alone decides. -/
theorem ofJson_eq_checkMembers (h : Describes j t) : ofJson refusal j = checkMembers j t := by
  rw [ofJson_eq, fields_eq_valid.mpr h]
  rfl

/-- A document that describes no team is refused for its fields, and no rule is asked. -/
theorem exists_issues_of_not_describes (hrefusal : ∀ message, refusal ≠ .rule message)
    (h : ∀ t, ¬ Describes j t) : ∃ is, ofJson refusal j = .invalid is ∧
      ∀ i ∈ is, ∀ message, i.kind ≠ .rule message := by
  rw [ofJson_eq]
  cases hfields : fields refusal j with
  | valid t => exact absurd (fields_eq_valid.mp hfields) (h t)
  | invalid is =>
    refine ⟨is, rfl, fun i hi message hrule => hrefusal message ?_⟩
    have hfound : i.FoundIn refusal j := finds_fields refusal j i (by rw [hfields]; exact hi)
    rw [← hfound.eq_refusal hrule, hrule]

/-- **Teams are read as they are described.** The documents that are accepted are those that describe
a team whose members differ in identifier and in username, and what is read is that team. Of the two
rules the one about identifiers comes first, and neither is asked of a document that describes no
team at all. The document of a team that was read is read as the same team. -/
theorem read_as_described (hrefusal : ∀ message, refusal ≠ .rule message) (j : Json) :
    (∀ t, ofJson refusal j = .valid t ↔ Describes j t ∧ t.Consistent) ∧
    (∀ t, Describes j t → ¬ (t.members.map MemberDraft.userId).Nodup →
      ofJson refusal j = .issue (.rule "members contain duplicated user_id") j) ∧
    (∀ t, Describes j t → (t.members.map MemberDraft.userId).Nodup →
      ¬ (t.members.map MemberDraft.username).Nodup →
      ofJson refusal j = .issue (.rule "members contain duplicated username") j) ∧
    ((∀ t, ¬ Describes j t) → ∃ is, ofJson refusal j = .invalid is ∧
      ∀ i ∈ is, ∀ message, i.kind ≠ .rule message) ∧
    ∀ t, ofJson refusal j = .valid t → ofJson refusal t.toJson = .valid t := by
  refine ⟨fun t => ofJson_eq_valid, ?_, ?_, exists_issues_of_not_describes hrefusal, ?_⟩
  · intro t h hids
    rw [ofJson_eq_checkMembers h, checkMembers, if_pos hids]
  · intro t h hids hnames
    rw [ofJson_eq_checkMembers h, checkMembers, if_neg (not_not.mpr hids), if_pos hnames]
  · intro t h
    obtain ⟨h, hconsistent⟩ := ofJson_eq_valid.mp h
    exact ofJson_eq_valid.mpr ⟨h.toJson, hconsistent⟩

/-- One member written twice, with the identifier in two spellings and blanks around the username. -/
def repeating : Json :=
  .object [("team_name", .text " core "), ("members", .list [
    .object [("user_id", .text "000000000000000000000000000000AB"), ("username", .text "ann")],
    .object [("user_id", .text "urn:uuid:00000000-0000-0000-0000-0000000000ab"),
      ("username", .text "\u3000ann"), ("is_active", .int 1)]])]

theorem read_as_described_repeating :
    ofJson .notObject repeating = .issue (.rule "members contain duplicated user_id") repeating := by
  have hfirst : (Identifier.ofNat 0xAB).Spells "000000000000000000000000000000AB".toList :=
    Identifier.ofText?_eq_some.mp (by decide +kernel)
  have hsecond :
      (Identifier.ofNat 0xAB).Spells "urn:uuid:00000000-0000-0000-0000-0000000000ab".toList :=
    Identifier.ofText?_eq_some.mp (by decide +kernel)
  have hdescribes : Describes repeating
      ⟨"core", [⟨.ofNat 0xAB, "ann", true⟩, ⟨.ofNat 0xAB, "ann", true⟩]⟩ := by
    refine .object ⟨_, rfl, _, rfl, by decide +kernel, by decide, by decide⟩
      (.inl ⟨_, rfl, _, rfl, .cons ?_ (.cons ?_ .nil)⟩)
    · exact .object ⟨_, rfl, _, rfl, hfirst⟩
        ⟨_, rfl, _, rfl, by decide +kernel, by decide, by decide⟩ (.inr ⟨rfl, rfl⟩)
    · exact .object ⟨_, rfl, _, rfl, hsecond⟩
        ⟨_, rfl, _, rfl, by decide +kernel, by decide, by decide⟩ (.inl ⟨_, rfl, .one rfl⟩)
  have hrefusal : ∀ message, IssueKind.notObject ≠ .rule message := nofun
  exact (read_as_described hrefusal repeating).2.1 _ hdescribes (by decide)

end TeamDraft

end ReviewRota
