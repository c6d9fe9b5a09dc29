import ReviewRota.Http.Serve

/-!
# What issues are about

A reader that refuses a document raises issues about the document or about parts of it, and about
nothing else: the place of an issue leads to the part that it is about. So when a document can be
written down again, an answer that tells what is wrong with it can be written down, too. And a rule
about several fields is never among the issues that the fields raise on their own.
-/

namespace ReviewRota

namespace Json

mutual

/-- Where there is more room, more can be told. -/
theorem isWritable_mono : ∀ (j : Json) {n m : Nat}, n ≤ m → j.isWritable n = true →
    j.isWritable m = true
  | null, _, _, _, _ => rfl
  | bool _, _, _, _, _ => rfl
  | number _, _, _, _, h => h
  | text _, _, _, _, _ => rfl
  | brokenText, _, _, _, h => nomatch h
  | list xs, _, _, hle, h => allWritable_mono xs hle h
  | object ms, _, _, hle, h => membersWritable_mono ms hle h

theorem allWritable_mono : ∀ (xs : List Json) {n m : Nat}, n ≤ m → allWritable n xs = true →
    allWritable m xs = true
  | [], _, _, _, _ => rfl
  | x :: xs, n, m, hle, h => by
    simp only [allWritable, Bool.and_eq_true, decide_eq_true_eq] at h ⊢
    obtain ⟨⟨hpos, hx⟩, hxs⟩ := h
    exact ⟨⟨by omega, isWritable_mono x (by omega) hx⟩, allWritable_mono xs hle hxs⟩

theorem membersWritable_mono : ∀ (ms : List (Name × Json)) {n m : Nat}, n ≤ m →
    membersWritable n ms = true → membersWritable m ms = true
  | [], _, _, _, _ => rfl
  | (name, v) :: ms, n, m, hle, h => by
    simp only [membersWritable, Bool.and_eq_true, Bool.or_eq_true, decide_eq_true_eq] at h ⊢
    obtain ⟨hv, hms⟩ := h
    refine ⟨hv.imp_right ?_, membersWritable_mono ms hle hms⟩
    rintro ⟨⟨hwhole, hpos⟩, hv⟩
    exact ⟨⟨hwhole, by omega⟩, isWritable_mono v (by omega) hv⟩

end

theorem isWritable_of_mem {room : Nat} {xs : List Json} (h : allWritable room xs = true) {x : Json}
    (hx : x ∈ xs) : x.isWritable room = true := by
  induction xs with
  | nil => cases hx
  | cons y ys ih =>
    simp only [allWritable, Bool.and_eq_true] at h
    rcases List.mem_cons.mp hx with rfl | hx
    · exact isWritable_mono x (Nat.sub_le room 1) h.1.2
    · exact ih h.2 hx

theorem isWritable_of_lookup? {room : Nat} {name : Name} (hname : name.isHidden = false)
    {ms : List (Name × Json)} (h : membersWritable room ms = true) {v : Json}
    (hv : lookup? name ms = some v) : v.isWritable room = true := by
  induction ms with
  | nil => cases hv
  | cons m ms ih =>
    obtain ⟨key, value⟩ := m
    simp only [membersWritable, Bool.and_eq_true, Bool.or_eq_true] at h
    cases hrest : lookup? name ms with
    | some w =>
      rw [lookup?, hrest] at hv
      exact ih h.2 (hrest.trans hv)
    | none =>
      rw [lookup?, hrest] at hv
      simp only at hv
      split at hv
      · rename_i hkey
        cases hv
        obtain hhidden | ⟨-, hv⟩ := h.1
        · rw [hkey, hname] at hhidden
          cases hhidden
        · exact isWritable_mono v (Nat.sub_le room 1) hv
      · cases hv

end Json

/-- What readers find wrong with a document. An issue is about the part of the document that its
place leads to; a member that is missing is an issue about the object without it. Nothing is a rule,
unless what the reader refuses as no object at all counts as one. -/
inductive Issue.FoundIn (refusal : IssueKind) : Json → Issue → Prop where
  | whole {kind : IssueKind} (j : Json) (h : ∀ message, kind = .rule message → kind = refusal) :
    FoundIn refusal j ⟨kind, [], j⟩
  | lacking {name : String} {ms : List (Json.Name × Json)} (h : Json.lookup? name ms = none) :
    FoundIn refusal (.object ms) ⟨.missing, [.key name], .object ms⟩
  | item {xs : List Json} {n : Nat} {x : Json} {i : Issue} (h : xs[n]? = some x)
    (hi : FoundIn refusal x i) : FoundIn refusal (.list xs) (i.under (.index n))
  | member {ms : List (Json.Name × Json)} {name : String} {v : Json} {i : Issue}
    (visible : Json.Name.isHidden name = false) (h : Json.lookup? name ms = some v) (hi : FoundIn refusal v i) :
    FoundIn refusal (.object ms) (i.under (.key name))

namespace Issue.FoundIn

variable {refusal : IssueKind} {j : Json} {i : Issue}

/-- Visible parts of a document that can be told can be told. -/
theorem isWritable (hi : i.FoundIn refusal j) {room : Nat} (hj : j.isWritable room = true) :
    i.subject.isWritable room = true := by
  induction hi with
  | whole => exact hj
  | lacking => exact hj
  | item h _ ih => exact ih (Json.isWritable_of_mem hj (List.mem_of_getElem? h))
  | member visible h _ ih => exact ih (Json.isWritable_of_lookup? visible hj h)

theorem eq_refusal (hi : i.FoundIn refusal j) {message : String} (hrule : i.kind = .rule message) :
    i.kind = refusal := by
  induction hi with
  | whole j h => exact h message hrule
  | lacking => cases hrule
  | item _ _ ih => exact ih hrule
  | member _ _ _ ih => exact ih hrule

end Issue.FoundIn

namespace Checked

variable {α β : Type}

variable {room : Nat}

/-- All issues are about documents that can be told. -/
def Writable (room : Nat) (c : Checked α) : Prop :=
  ∀ i ∈ c.issues, i.subject.isWritable room = true

theorem writable_valid (a : α) : (valid a).Writable room := fun _ h => nomatch h

theorem writable_issue (kind : IssueKind) {subject : Json} (h : subject.isWritable room = true) :
    (issue kind subject : Checked α).Writable room := by
  intro i hi
  rw [List.mem_singleton.mp hi]
  exact h

theorem Writable.under {c : Checked α} (h : c.Writable room) (p : Place) :
    (c.under p).Writable room := by
  cases c with
  | valid a => exact writable_valid a
  | invalid is =>
    intro i hi
    obtain ⟨j, hj, rfl⟩ := List.mem_map.mp hi
    exact h j hj

theorem Writable.andThen {c : Checked α} (h : c.Writable room) {f : α → Checked β}
    (hf : ∀ a, (f a).Writable room) : (c.andThen f).Writable room := by
  cases c with
  | valid a => exact hf a
  | invalid is => exact h

/-- All issues are found in the document. -/
def FoundIn (refusal : IssueKind) (j : Json) (c : Checked α) : Prop :=
  ∀ i ∈ c.issues, i.FoundIn refusal j

variable {refusal : IssueKind} {j : Json}

theorem foundIn_valid (a : α) : (valid a).FoundIn refusal j := fun _ h => nomatch h

theorem foundIn_issue {kind : IssueKind} (h : ∀ message, kind = .rule message → kind = refusal) :
    (issue kind j : Checked α).FoundIn refusal j := by
  intro i hi
  rw [List.mem_singleton.mp hi]
  exact .whole j h

theorem FoundIn.map {c : Checked α} (h : c.FoundIn refusal j) (f : α → β) :
    (f <$> c).FoundIn refusal j := by
  cases c with
  | valid a => exact foundIn_valid (f a)
  | invalid is => exact h

theorem FoundIn.seq {f : Checked (α → β)} {c : Checked α} (hf : f.FoundIn refusal j)
    (hc : c.FoundIn refusal j) : (f <*> c).FoundIn refusal j := by
  cases f with
  | valid f =>
    cases c with
    | valid a => exact foundIn_valid (f a)
    | invalid is => exact hc
  | invalid is =>
    cases c with
    | valid a => exact hf
    | invalid js => exact fun i hi => (List.mem_append.mp hi).elim (hf i) (hc i)

theorem foundIn_all {cs : List (Checked α)} (h : ∀ c ∈ cs, c.FoundIn refusal j) :
    (all cs).FoundIn refusal j := by
  induction cs with
  | nil => exact foundIn_valid []
  | cons c cs ih =>
    rw [List.forall_mem_cons] at h
    exact (h.1.map List.cons).seq (ih h.2)

theorem FoundIn.item {c : Checked α} {xs : List Json} {n : Nat} (hx : xs[n]? = some j)
    (h : c.FoundIn refusal j) : (c.under (.index n)).FoundIn refusal (.list xs) := by
  cases c with
  | valid a => exact foundIn_valid a
  | invalid is =>
    intro i hi
    obtain ⟨k, hk, rfl⟩ := List.mem_map.mp hi
    exact .item hx (h k hk)

theorem FoundIn.member {c : Checked α} {ms : List (Json.Name × Json)} {name : String}
    (visible : Json.Name.isHidden name = false) (hv : Json.lookup? name ms = some j) (h : c.FoundIn refusal j) :
    (c.under (.key name)).FoundIn refusal (.object ms) := by
  cases c with
  | valid a => exact foundIn_valid a
  | invalid is =>
    intro i hi
    obtain ⟨k, hk, rfl⟩ := List.mem_map.mp hi
    exact .member visible hv (h k hk)

end Checked

namespace Field

open Checked

variable {α : Type} {refusal : IssueKind}

/-- A reader that raises issues about what it is given, or about parts of it. -/
def KeepsTo (read : Json → Checked α) : Prop :=
  ∀ j room, j.isWritable room = true → (read j).Writable room

/-- A reader whose issues are found in what it is given. -/
def Finds (refusal : IssueKind) (read : Json → Checked α) : Prop :=
  ∀ j, (read j).FoundIn refusal j

theorem Finds.keepsTo {read : Json → Checked α} (h : Finds refusal read) : KeepsTo read :=
  fun j _ hj i hi => (h j i hi).isWritable hj

theorem finds_identifier : Finds refusal identifier := by
  intro j
  unfold identifier
  split
  · split
    · exact foundIn_valid _
    · exact foundIn_issue nofun
  · exact foundIn_issue nofun
  · exact foundIn_issue nofun

theorem keepsTo_identifier : KeepsTo identifier :=
  (finds_identifier : Finds .notObject identifier).keepsTo

theorem finds_truth : Finds refusal truth := by
  intro j
  unfold truth
  split
  · exact foundIn_valid _
  · split
    · exact foundIn_valid _
    · exact foundIn_issue nofun
  · exact foundIn_issue nofun
  · split
    · split
      · exact foundIn_valid _
      · split
        · exact foundIn_valid _
        · split <;> exact foundIn_issue nofun
    · exact foundIn_issue nofun
  · exact foundIn_issue nofun

theorem finds_text : Finds refusal text := by
  intro j
  unfold text
  split
  · exact foundIn_valid _
  · exact foundIn_issue nofun
  · exact foundIn_issue nofun

theorem keepsTo_text : KeepsTo text :=
  (finds_text : Finds .notObject text).keepsTo

theorem finds_name : Finds refusal name := by
  intro j
  unfold name
  split
  · dsimp only
    split
    · exact foundIn_issue nofun
    · split
      · exact foundIn_issue nofun
      · exact foundIn_valid _
  · exact foundIn_issue nofun
  · exact foundIn_issue nofun

theorem Finds.list {read : Json → Checked α} (h : Finds refusal read) :
    Finds refusal (list read) := by
  intro j
  unfold Field.list
  split
  · refine foundIn_all fun c hc => ?_
    obtain ⟨⟨x, n⟩, hx, rfl⟩ := List.mem_map.mp hc
    exact .item (List.mem_zipIdx_iff_getElem?.mp hx) (h x)
  · exact foundIn_issue nofun

theorem finds_members {read : List (Json.Name × Json) → Checked α}
    (h : ∀ ms, (read ms).FoundIn refusal (.object ms)) :
    Finds refusal fun j => members refusal j read := by
  intro j
  dsimp only [members]
  split
  · exact h _
  · exact foundIn_issue fun _ _ => rfl

variable {read : Json → Checked α}

theorem foundIn_required (h : Finds refusal read) {key : String}
    (visible : Json.Name.isHidden key = false) (ms : List (Json.Name × Json)) :
    (required key read ms).FoundIn refusal (.object ms) := by
  unfold required
  split
  · rename_i j hj
    exact .member visible hj (h j)
  · rename_i hnone
    intro i hi
    rw [List.mem_singleton.mp hi]
    exact .lacking hnone

theorem foundIn_defaulted (h : Finds refusal read) {key : String}
    (visible : Json.Name.isHidden key = false) (value : α) (ms : List (Json.Name × Json)) :
    (defaulted key value read ms).FoundIn refusal (.object ms) := by
  unfold defaulted
  split
  · rename_i j hj
    exact .member visible hj (h j)
  · exact foundIn_valid value

end Field

section Drafts

open ReviewRota.Field

variable (refusal : IssueKind)

theorem MemberDraft.finds : Finds refusal (ofJson refusal) :=
  finds_members fun _ => (((foundIn_required finds_identifier rfl _).map _).seq
    (foundIn_required finds_name rfl _)).seq (foundIn_defaulted finds_truth rfl _ _)

/-- The fields of a team that is to be created, before the rule about its members is asked. -/
def TeamDraft.fields (j : Json) : Checked TeamDraft :=
  Field.members refusal j fun ms => TeamDraft.mk <$> required "team_name" Field.name ms <*>
    defaulted "members" [] (Field.list (MemberDraft.ofJson refusal)) ms

theorem TeamDraft.finds_fields : Finds refusal (fields refusal) :=
  finds_members fun _ => ((foundIn_required finds_name rfl _).map _).seq
    (foundIn_defaulted (MemberDraft.finds refusal).list rfl _ _)

theorem TeamDraft.ofJson_eq (j : Json) :
    ofJson refusal j = (fields refusal j).andThen (checkMembers j) := rfl

theorem TeamDraft.keepsTo : KeepsTo (ofJson refusal) := by
  intro j room hj
  refine Checked.Writable.andThen ((finds_fields refusal).keepsTo j room hj) fun draft => ?_
  unfold checkMembers
  split
  · exact Checked.writable_issue _ hj
  · split
    · exact Checked.writable_issue _ hj
    · exact Checked.writable_valid draft

theorem ActivityDraft.finds : Finds refusal (ofJson refusal) :=
  finds_members fun _ =>
    ((foundIn_required finds_identifier rfl _).map _).seq (foundIn_required finds_truth rfl _)

theorem PullRequestDraft.finds : Finds refusal (ofJson refusal) :=
  finds_members fun _ => (((foundIn_required finds_identifier rfl _).map _).seq
    (foundIn_required finds_name rfl _)).seq (foundIn_required finds_identifier rfl _)

theorem MergeDraft.finds : Finds refusal (ofJson refusal) :=
  finds_members fun _ => (foundIn_required finds_identifier rfl _).map _

theorem ReassignDraft.finds : Finds refusal (ofJson refusal) :=
  finds_members fun _ => ((foundIn_required finds_identifier rfl _).map _).seq
    (foundIn_required finds_identifier rfl _)

end Drafts

/-! ## Requests -/

namespace Http

variable {α : Type}

/-- The body is none, or no document, or a document that can be read and told again. A text with the
character NUL among its first two is taken for one of another encoding, and what it reads as is left
open. -/
structure Request.Plain (r : Request) : Prop where
  encoded : ∀ s, r.body = .text s → Char.ofNat 0 ∉ s.toList.take 2
  tellable : ∀ j, r.body.read r.nesting.read = .ok (some j) → j.isWritable r.nesting.told = true
  read : ∀ e, r.body.read r.nesting.read = .error e → e = .malformed

theorem Request.plain_of_document {r : Request} {j : Json} (hbody : r.body = .document j)
    (hread : j.isReadable r.nesting.read = true) (htold : j.isWritable r.nesting.told = true) :
    r.Plain := by
  have h : r.body.read r.nesting.read = .ok (some j) := by rw [hbody, Body.read, if_pos hread]
  refine ⟨fun s hs => ?_, fun k hk => ?_, fun e he => ?_⟩
  · cases hbody.symm.trans hs
  · cases h.symm.trans hk
    exact htold
  · cases h.symm.trans he

/-- What is read is a value or issues, and the issues can be told to the client. -/
def Reading.Tellable (room : Nat) : Reading α → Prop
  | value _ => True
  | issues is => (is.all fun i => i.subject.isWritable room) = true
  | unreadable => False

theorem tellable_ofChecked {room : Nat} {c : Checked α} (h : c.Writable room) (part : String) :
    (Reading.ofChecked part c).Tellable room := by
  cases c with
  | valid a => trivial
  | invalid is =>
    show ((is.map (Issue.under (.key part))).all fun i => i.subject.isWritable room) = true
    rw [List.all_eq_true]
    exact (Checked.Writable.under h (.key part) :)

/-- The document that a body brings. -/
inductive Body.Holds : Body → Json → Prop where
  | document (j : Json) : Holds (.document j) j
  | text {room : Nat} {s : String} {j : Json} (h : Json.Reader.read room (withoutMark s) = .ok j)
    (filled : s ≠ "") : Holds (.text s) j

theorem Body.holds_of_read {body : Body} {room : Nat} {j : Json} (h : body.read room = .ok (some j)) :
    body.Holds j := by
  unfold Body.read at h
  split at h
  · cases h
  · cases h
  · split at h
    · cases h
      exact .document _
    · cases h
  · rename_i s hfilled
    cases hread : Json.Reader.read room (withoutMark s) with
    | ok k =>
      rw [hread] at h
      cases h
      exact .text hread fun hs => hfilled (hs ▸ rfl)
    | error e =>
      rw [hread] at h
      cases h

theorem ofChecked_eq_value {c : Checked α} {part : String} {a : α} :
    Reading.ofChecked part c = .value a ↔ c = .valid a := by
  cases c with
  | valid b => exact ⟨fun h => Reading.value.inj h ▸ rfl, fun h => Checked.valid.inj h ▸ rfl⟩
  | invalid is => exact ⟨nofun, nofun⟩

/-- A body is read as the document that it brings. -/
theorem readBody_eq_value {read : IssueKind → Json → Checked α} {r : Request} {a : α} :
    readBody read r = .value a ↔
      ∃ j, r.body.read r.nesting.read = .ok (some j) ∧ read .notRequestObject j = .valid a := by
  unfold readBody
  split
  · rename_i j hj
    rw [ofChecked_eq_value, hj]
    simp
  · rename_i hnone
    rw [hnone]
    exact ⟨nofun, nofun⟩
  · rename_i hmalformed
    rw [hmalformed]
    exact ⟨nofun, nofun⟩
  · rename_i e _ herror
    rw [herror]
    exact ⟨nofun, nofun⟩

/-- Whatever is wrong with a plain body can be told. -/
theorem tellable_readBody {read : IssueKind → Json → Checked α}
    (h : ∀ refusal, Field.KeepsTo (read refusal)) {r : Request} (hr : r.Plain) :
    (readBody read r).Tellable r.nesting.told := by
  unfold readBody
  split
  · rename_i j hj
    exact tellable_ofChecked (h _ j _ (hr.tellable j hj)) _
  · rfl
  · rfl
  · rename_i e hnot herror
    exact absurd (hr.read e herror ▸ rfl) hnot

/-- Parameters are texts, so whatever is wrong with one can be told. -/
theorem tellable_readParameter {read : Json → Checked α} (h : Field.KeepsTo read) (name : String)
    (r : Request) : (readParameter name read r).Tellable r.nesting.told := by
  unfold readParameter
  split
  · exact tellable_ofChecked ((h _ _ rfl).under _) _
  · rfl

end Http

end ReviewRota
