import Mathlib.Data.List.Nodup
import Mathlib.Logic.Function.Basic
import ReviewRota.Sql.Execution
import ReviewRota.Tables

/-!
# Entities in rows

What the rows of a database say about teams, users, pull requests and pairs: the values in which a
row shows an entity, and that an entity is read from a row that shows it. A table files entities
when each of them has one row and there are no other rows; this is what statements need to know in
order to find, put in and take out the right rows.
-/

namespace ReviewRota

open Sql

/-! ## Showing and reading -/

/-- The values of a team's row. -/
def Team.data (t : Team) : List (Column × Datum) := [(Schema.id, .id t.id), (Schema.name, .text t.name)]

def User.data (u : User) : List (Column × Datum) :=
  [(Schema.id, .id u.id), (Schema.username, .text u.username), (Schema.isActive, .truth u.isActive),
    (Schema.teamId, .id u.teamId)]

def PullRequest.data (p : PullRequest) : List (Column × Datum) :=
  [(Schema.id, .id p.id), (Schema.name, .text p.name), (Schema.authorId, .id p.authorId),
    (Schema.status, .status p.status), (Schema.createdAt, .instant p.createdAt),
    (Schema.mergedAt, match p.mergedAt with
      | some i => .instant i
      | none => .null)]

/-- The values of the row of a pull request with a reviewer. -/
def Pairs.data (p : Identifier × Identifier) : List (Column × Datum) :=
  [(Schema.pullRequestId, .id p.1), (Schema.userId, .id p.2)]

namespace Sql

namespace Row

/-- A row has some values. -/
def Shows (values : List (Column × Datum)) (r : Row) : Prop := ∀ v ∈ values, value v.1.name r = v.2

theorem team_project {t : Team} {r : Row} (h : Shows t.data r) :
    team (project Schema.teams.columns r) = .valid t := by
  simp only [Shows, Team.data, List.forall_mem_cons] at h
  obtain ⟨hid, hname, -⟩ := h
  show Team.mk <$> (value Schema.id.name r).readIdentifier.under _ <*>
    (value Schema.name.name r).readText.under _ = _
  rw [hid, hname]
  rfl

theorem user_project {u : User} {r : Row} (h : Shows u.data r) :
    user (project Schema.users.columns r) = .valid u := by
  simp only [Shows, User.data, List.forall_mem_cons] at h
  obtain ⟨hid, husername, hactive, hteam, -⟩ := h
  show User.mk <$> (value Schema.id.name r).readIdentifier.under _ <*>
    (value Schema.username.name r).readText.under _ <*>
    (value Schema.isActive.name r).readTruth.under _ <*>
    (value Schema.teamId.name r).readIdentifier.under _ = _
  rw [hid, husername, hactive, hteam]
  rfl

theorem pullRequest_project {p : PullRequest} {r : Row} (h : Shows p.data r) :
    pullRequest (project Schema.pullRequests.columns r) = .valid p := by
  simp only [Shows, PullRequest.data, List.forall_mem_cons] at h
  obtain ⟨hid, hname, hauthor, hstatus, hcreated, hmerged, -⟩ := h
  show PullRequest.mk <$> (value Schema.id.name r).readIdentifier.under _ <*>
    (value Schema.name.name r).readText.under _ <*>
    (value Schema.authorId.name r).readIdentifier.under _ <*>
    (value Schema.status.name r).readStatus.under _ <*>
    (value Schema.createdAt.name r).readInstant.under _ <*>
    (value Schema.mergedAt.name r).readInstant?.under _ = _
  rw [hid, hname, hauthor, hstatus, hcreated, hmerged]
  obtain ⟨id, name, authorId, status, createdAt, mergedAt⟩ := p
  cases mergedAt <;> rfl

/-- At most one entity is shown by a row. -/
def Tells {α : Type} (data : α → List (Column × Datum)) : Prop :=
  ∀ a b r, Shows (data a) r → Shows (data b) r → a = b

theorem tells_of_read {α : Type} {data : α → List (Column × Datum)} {cs : List Column}
    {read : Row → Checked α} (h : ∀ {a r}, Shows (data a) r → read (project cs r) = .valid a) :
    Tells data := by
  intro a b r ha hb
  have hread := h ha
  rw [h hb] at hread
  exact (Checked.valid.inj hread).symm

theorem tells_team : Tells Team.data := tells_of_read team_project

theorem tells_user : Tells User.data := tells_of_read user_project

theorem tells_pullRequest : Tells PullRequest.data := tells_of_read pullRequest_project

theorem tells_pair : Tells Pairs.data := by
  intro a b r ha hb
  simp only [Shows, Pairs.data, List.forall_mem_cons] at ha hb
  obtain ⟨hp, hu, -⟩ := ha
  rw [hp, hu] at hb
  obtain ⟨hp, hu, -⟩ := hb
  exact Prod.ext (Datum.id.inj hp) (Datum.id.inj hu)

end Row

/-! ## Filing -/

section Files

variable {α : Type} {f : α → Row} {rows rows' : Row → Prop}
  {data : α → List (Column × Datum)} {mem mem' p : α → Prop}

/-- Each of some entities has one row, and there are no other rows. -/
structure Files (f : α → Row) (rows : Row → Prop) (data : α → List (Column × Datum))
    (mem : α → Prop) : Prop where
  shows : ∀ a, mem a → rows (f a) ∧ (f a).Shows (data a)
  only : ∀ r, rows r → ∃ a, mem a ∧ f a = r

namespace Files

theorem congr (h : Files f rows data mem) (hrows : ∀ r, rows' r ↔ rows r)
    (hmem : ∀ a, mem' a ↔ mem a) : Files f rows' data mem' where
  shows := fun a ha => by
    rw [hrows]
    exact h.shows a ((hmem a).mp ha)
  only := fun r hr => by
    obtain ⟨a, ha, hf⟩ := h.only r ((hrows r).mp hr)
    exact ⟨a, (hmem a).mpr ha, hf⟩

theorem injOn (h : Files f rows data mem) (tells : Row.Tells data) {a b : α} (ha : mem a)
    (hb : mem b) (hf : f a = f b) : a = b :=
  tells a b (f a) (h.shows a ha).2 (hf ▸ (h.shows b hb).2)

/-- A list of the rows with some property is a list of the rows of the entities with it. -/
theorem listed_iff (h : Files f rows data mem) (tells : Row.Tells data) {P : Row → Prop}
    (hp : ∀ a, mem a → (P (f a) ↔ p a)) {rs : List Row} :
    (rs.Nodup ∧ ∀ r, r ∈ rs ↔ rows r ∧ P r) ↔
      ∃ as : List α, rs = as.map f ∧ as.Nodup ∧ ∀ a, a ∈ as ↔ mem a ∧ p a := by
  constructor
  · rintro ⟨hnodup, hmem⟩
    obtain ⟨as, rfl, has⟩ : ∃ as : List α, rs = as.map f ∧ ∀ a ∈ as, mem a ∧ p a := by
      have hrs : ∀ r ∈ rs, ∃ a, (mem a ∧ p a) ∧ f a = r := by
        intro r hr
        obtain ⟨hrow, hP⟩ := (hmem r).mp hr
        obtain ⟨a, ha, rfl⟩ := h.only r hrow
        exact ⟨a, ⟨ha, (hp a ha).mp hP⟩, rfl⟩
      clear hnodup hmem
      induction rs with
      | nil => exact ⟨[], rfl, by simp⟩
      | cons r rs ih =>
        obtain ⟨a, ha, rfl⟩ := hrs r List.mem_cons_self
        obtain ⟨as, rfl, has⟩ := ih fun r hr => hrs r (List.mem_cons_of_mem _ hr)
        exact ⟨a :: as, rfl, List.forall_mem_cons.mpr ⟨ha, has⟩⟩
    refine ⟨as, rfl, .of_map f hnodup, fun a => ⟨has a, fun ⟨ha, hpa⟩ => ?_⟩⟩
    have hr : f a ∈ as.map f := (hmem (f a)).mpr ⟨(h.shows a ha).1, (hp a ha).mpr hpa⟩
    obtain ⟨b, hb, hf⟩ := List.mem_map.mp hr
    rwa [← h.injOn tells (has b hb).1 ha hf]
  · rintro ⟨as, rfl, hnodup, has⟩
    constructor
    · refine hnodup.map_on fun a ha b hb hf => ?_
      exact h.injOn tells ((has a).mp ha).1 ((has b).mp hb).1 hf
    · intro r
      rw [List.mem_map]
      constructor
      · rintro ⟨a, ha, rfl⟩
        obtain ⟨ha, hpa⟩ := (has a).mp ha
        exact ⟨(h.shows a ha).1, (hp a ha).mpr hpa⟩
      · rintro ⟨hrow, hP⟩
        obtain ⟨a, ha, rfl⟩ := h.only r hrow
        exact ⟨a, (has a).mpr ⟨ha, (hp a ha).mp hP⟩, rfl⟩

/-- The same for a property that at most one entity has. -/
theorem listed_option_iff (h : Files f rows data mem) (tells : Row.Tells data) {P : Row → Prop}
    {o : Option α} (ho : ∀ a, o = some a ↔ mem a ∧ p a) (hp : ∀ a, mem a → (P (f a) ↔ p a))
    {rs : List Row} :
    (rs.Nodup ∧ ∀ r, r ∈ rs ↔ rows r ∧ P r) ↔ rs = (o.map f).toList := by
  rw [h.listed_iff tells hp]
  constructor
  · rintro ⟨as, rfl, hnodup, has⟩
    have hmem : ∀ a, a ∈ as ↔ a ∈ o.toList := by
      intro a
      rw [has, ← ho, Option.mem_toList]
    have htoList : o.toList.Nodup := by cases o <;> simp
    have hperm := (List.perm_ext_iff_of_nodup hnodup htoList).mpr hmem
    cases o with
    | none => simpa using hperm.eq_nil
    | some a =>
      rw [Option.toList_some] at hperm
      rw [hperm.eq_singleton]
      rfl
  · rintro rfl
    refine ⟨o.toList, by cases o <;> rfl, by cases o <;> simp, fun a => ?_⟩
    rw [Option.mem_toList, ← ho]

variable (key : Row → List Datum) (κ : α → List Datum)

/-- A row is put in, in the place of the one with the same key if there is one. -/
theorem put [DecidableEq α] (h : Files f rows data mem)
    (hkey : ∀ a r, r.Shows (data a) → key r = κ a) {a : α} {row : Row}
    (hrow : row.Shows (data a)) (hrows : ∀ r, rows' r ↔ r = row ∨ (rows r ∧ key r ≠ key row))
    (hmem : ∀ b, mem' b ↔ b = a ∨ (mem b ∧ κ b ≠ κ a)) :
    Files (Function.update f a row) rows' data mem' where
  shows := by
    intro b hb
    rcases (hmem b).mp hb with rfl | ⟨hb, hne⟩
    · rw [Function.update_self]
      exact ⟨(hrows row).mpr (Or.inl rfl), hrow⟩
    · have hba : b ≠ a := fun he => hne (congrArg κ he)
      obtain ⟨hin, hshows⟩ := h.shows b hb
      rw [Function.update_of_ne hba]
      refine ⟨(hrows _).mpr (Or.inr ⟨hin, ?_⟩), hshows⟩
      rwa [hkey b _ hshows, hkey a row hrow]
  only := by
    intro r hr
    rcases (hrows r).mp hr with rfl | ⟨hr, hne⟩
    · exact ⟨a, (hmem a).mpr (Or.inl rfl), Function.update_self ..⟩
    · obtain ⟨b, hb, rfl⟩ := h.only r hr
      rw [hkey b _ (h.shows b hb).2, hkey a row hrow] at hne
      refine ⟨b, (hmem b).mpr (Or.inr ⟨hb, hne⟩), Function.update_of_ne ?_ _ _⟩
      exact fun he => hne (congrArg κ he)

/-- No row has the key of an entity that is new. -/
theorem key_ne (h : Files f rows data mem) (hkey : ∀ a r, r.Shows (data a) → key r = κ a) {a : α}
    {row : Row} (hrow : row.Shows (data a)) (fresh : ∀ b, mem b → κ b ≠ κ a) (r : Row)
    (hr : rows r) : key r ≠ key row := by
  obtain ⟨b, hb, rfl⟩ := h.only r hr
  rw [hkey b _ (h.shows b hb).2, hkey a row hrow]
  exact fresh b hb

/-- The row of a key is taken out. -/
theorem remove (h : Files f rows data mem) (hkey : ∀ a r, r.Shows (data a) → key r = κ a)
    (k : List Datum) (hrows : ∀ r, rows' r ↔ rows r ∧ key r ≠ k)
    (hmem : ∀ b, mem' b ↔ mem b ∧ κ b ≠ k) : Files f rows' data mem' where
  shows := by
    intro b hb
    obtain ⟨hb, hne⟩ := (hmem b).mp hb
    obtain ⟨hin, hshows⟩ := h.shows b hb
    refine ⟨(hrows _).mpr ⟨hin, ?_⟩, hshows⟩
    rwa [hkey b _ hshows]
  only := by
    intro r hr
    obtain ⟨hr, hne⟩ := (hrows r).mp hr
    obtain ⟨b, hb, rfl⟩ := h.only r hr
    rw [hkey b _ (h.shows b hb).2] at hne
    exact ⟨b, (hmem b).mpr ⟨hb, hne⟩, rfl⟩

end Files

end Files

end Sql

end ReviewRota
