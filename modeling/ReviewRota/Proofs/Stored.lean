import ReviewRota.Proofs.Rows
import ReviewRota.Proofs.Unambiguous

/-!
# Tables in a database

When the contents of a database hold tables: every team, user, pull request and pair has its row,
and there are no other rows. Every write of the service is followed by the same change of the tables.
-/

namespace ReviewRota

open Sql

/-! ## Constraints -/

namespace Tables

/-- What the constraints of the database say about tables. -/
structure Sound (t : Tables) : Prop where
  teamKeys : t.teams.Keyed Team.id
  userKeys : t.users.Keyed User.id
  pullRequestKeys : t.pullRequests.Keyed PullRequest.id
  teamNames : ∀ j k a b, t.teams.find? j = some a → t.teams.find? k = some b →
    a.name = b.name → j = k
  usernames : ∀ j k a b, t.users.find? j = some a → t.users.find? k = some b →
    a.teamId = b.teamId → a.username = b.username → j = k
  userTeams : ∀ k u, t.users.find? k = some u → ∃ team, t.teams.find? u.teamId = some team
  authors : ∀ k p, t.pullRequests.find? k = some p → ∃ u, t.users.find? p.authorId = some u

variable {t : Tables}

theorem Integrity.sound (h : t.Integrity) : t.Sound :=
  ⟨h.teamKeys, h.userKeys, h.pullRequestKeys, h.teamNames, h.usernames, h.userTeams, h.authors⟩

theorem Sound.unambiguous (h : t.Sound) : t.Unambiguous :=
  ⟨h.teamKeys, h.userKeys, h.pullRequestKeys, h.teamNames, h.usernames⟩

/-- Unambiguous tables in which references lead somewhere. -/
theorem Unambiguous.sound (h : t.Unambiguous)
    (userTeams : ∀ k u, t.users.find? k = some u → ∃ team, t.teams.find? u.teamId = some team)
    (authors : ∀ k p, t.pullRequests.find? k = some p → ∃ u, t.users.find? p.authorId = some u) :
    t.Sound :=
  ⟨h.teamKeys, h.userKeys, h.pullRequestKeys, h.teamNames, h.usernames, userTeams, authors⟩

theorem Sound.putTeam (h : t.Sound) {team : Team} (fresh : t.teams.find? team.id = none)
    (unnamed : t.teamNamed? team.name = none) : (t.putTeam team).Sound := by
  refine (h.unambiguous.putTeam unnamed).sound ?_ h.authors
  intro k u hu
  obtain ⟨old, hold⟩ := h.userTeams k u hu
  have hne := Ledger.ne_of_find? hold fresh
  exact ⟨old, by rwa [find?_putTeam, if_neg hne]⟩

theorem Sound.putUser (h : t.Sound) {u : User} {team : Team} (free : t.usernameTaken u = false)
    (hteam : t.teams.find? u.teamId = some team) : (t.putUser u).Sound := by
  refine (h.unambiguous.putUser free).sound ?_ ?_
  · intro k v hv
    rw [find?_putUser] at hv
    split at hv
    · cases hv
      exact ⟨team, hteam⟩
    · exact h.userTeams k v hv
  · intro k p hp
    obtain ⟨v, hv⟩ := h.authors k p hp
    rw [find?_putUser]
    split
    · exact ⟨u, rfl⟩
    · exact ⟨v, hv⟩

theorem Sound.putPullRequest (h : t.Sound) {p : PullRequest} {author : User}
    (hauthor : t.users.find? p.authorId = some author) : (t.putPullRequest p).Sound := by
  refine (h.unambiguous.putPullRequest p).sound h.userTeams ?_
  intro k q hq
  rw [find?_putPullRequest] at hq
  split at hq
  · cases hq
    exact ⟨author, hauthor⟩
  · exact h.authors k q hq

theorem Sound.withReviewers (h : t.Sound) (ps : Pairs) : Sound { t with reviewers := ps } :=
  ⟨h.teamKeys, h.userKeys, h.pullRequestKeys, h.teamNames, h.usernames, h.userTeams, h.authors⟩

end Tables

/-! ## Holding tables -/

namespace Sql.Contents

/-- The contents hold tables. -/
structure Holds (t : Tables) (d : Contents) : Prop where
  sound : t.Sound
  teams : ∃ f, Files f (d Schema.teams.name) Team.data fun x => t.teams.find? x.id = some x
  users : ∃ f, Files f (d Schema.users.name) User.data fun x => t.users.find? x.id = some x
  pullRequests : ∃ f, Files f (d Schema.pullRequests.name) PullRequest.data
    fun x => t.pullRequests.find? x.id = some x
  pairs : ∃ f, Files f (d Schema.reviewers.name) Pairs.data fun x => x ∈ t.reviewers

variable {t t' : Tables} {d : Contents} {row : Row}

theorem put_of_ne {tb : Table} {name : String} (h : name ≠ tb.name) (row : Row) (d : Contents) :
    d.put tb row name = d name := by
  funext r
  simp [put, h]

theorem put_self (tb : Table) (row r : Row) (d : Contents) :
    d.put tb row tb.name r ↔ r = row ∨ (d tb.name r ∧ tb.key r ≠ tb.key row) := by
  simp [put]

theorem remove_of_ne {tb : Table} {name : String} (h : name ≠ tb.name) (key : List Datum)
    (d : Contents) : d.remove tb key name = d name := by
  funext r
  simp [remove, h]

theorem remove_self (tb : Table) (key : List Datum) (r : Row) (d : Contents) :
    d.remove tb key tb.name r ↔ d tb.name r ∧ tb.key r ≠ key := by
  simp [remove]

section Frames

variable {α : Type} {data : α → List (Column × Datum)} {mem : α → Prop} {tb : Table} {name : String}

/-- A row that is put into one table changes nothing in another one. -/
theorem files_put_of_ne (h : ∃ f, Files f (d name) data mem) (hne : name ≠ tb.name) (row : Row) :
    ∃ f, Files f (d.put tb row name) data mem := by
  rwa [put_of_ne hne]

theorem files_remove_of_ne (h : ∃ f, Files f (d name) data mem) (hne : name ≠ tb.name)
    (key : List Datum) : ∃ f, Files f (d.remove tb key name) data mem := by
  rwa [remove_of_ne hne]

end Frames

end Sql.Contents

/-- What is found under the key of a value after another one was put under its own. -/
theorem Ledger.find?_put_key_iff {α : Type} {key : α → Identifier} {l : Ledger α} {a b : α} :
    (l.put (key a) a).find? (key b) = some b ↔
      b = a ∨ (l.find? (key b) = some b ∧ [Datum.id (key b)] ≠ [.id (key a)]) := by
  rw [find?_put]
  split
  · rename_i he
    simp [he, eq_comm]
  · rename_i hne
    have hba : b ≠ a := fun he => hne (congrArg key he)
    simp [hne, hba]

/-! ## Values of a ledger in rows -/

namespace Sql.Files

variable {α : Type} {f : α → Row} {rows rows' : Row → Prop} {data : α → List (Column × Datum)}
  {id : α → Identifier} {l : Ledger α} {key : Row → List Datum}

/-- A value is put into the ledger, and its row among the rows. -/
theorem put_key [DecidableEq α] (h : Files f rows data fun x => l.find? (id x) = some x)
    (hkey : ∀ a r, r.Shows (data a) → key r = [.id (id a)]) {a : α} {row : Row}
    (hrow : row.Shows (data a)) (hrows : ∀ r, rows' r ↔ r = row ∨ (rows r ∧ key r ≠ key row)) :
    ∃ g, Files g rows' data fun x => (l.put (id a) a).find? (id x) = some x :=
  ⟨_, h.put key (fun a => [.id (id a)]) hkey hrow hrows fun _ => Ledger.find?_put_key_iff⟩

/-- The row of a value that is not in the ledger has a new key. -/
theorem key_ne_of_find? (h : Files f rows data fun x => l.find? (id x) = some x)
    (hkey : ∀ a r, r.Shows (data a) → key r = [.id (id a)]) {a : α} {row : Row}
    (fresh : l.find? (id a) = none) (hrow : row.Shows (data a)) (r : Row) (hr : rows r) :
    key r ≠ key row := by
  refine h.key_ne key (fun a => [.id (id a)]) hkey hrow (fun b hb he => ?_) r hr
  rw [Datum.id.inj (List.singleton_inj.mp he), fresh] at hb
  cases hb

/-- A value that is found in the ledger has a row. -/
theorem exists_of_find? (h : Files f rows data fun x => l.find? (id x) = some x)
    (keyed : l.Keyed id) {k : Identifier} {a : α} (ha : l.find? k = some a) :
    ∃ r, rows r ∧ r.Shows (data a) ∧ id a = k := by
  obtain rfl := keyed k a ha
  obtain ⟨hr, hshows⟩ := h.shows a ha
  exact ⟨f a, hr, hshows, rfl⟩

end Sql.Files

/-! ## Keys -/

namespace Sql.Row.Shows

variable {r : Row}

theorem team_id {a : Team} (h : r.Shows a.data) : r.value Schema.id.name = .id a.id :=
  h _ (.head _)

theorem user_id {a : User} (h : r.Shows a.data) : r.value Schema.id.name = .id a.id :=
  h _ (.head _)

theorem pullRequest_id {a : PullRequest} (h : r.Shows a.data) :
    r.value Schema.id.name = .id a.id :=
  h _ (.head _)

theorem pair_fst {a : Identifier × Identifier} (h : r.Shows (Pairs.data a)) :
    r.value Schema.pullRequestId.name = .id a.1 :=
  h _ (.head _)

theorem pair_snd {a : Identifier × Identifier} (h : r.Shows (Pairs.data a)) :
    r.value Schema.userId.name = .id a.2 :=
  h _ (.tail _ (.head _))

theorem team_key {a : Team} (h : r.Shows a.data) : Schema.teams.key r = [.id a.id] :=
  congrArg (fun v => [v]) h.team_id

theorem user_key {a : User} (h : r.Shows a.data) : Schema.users.key r = [.id a.id] :=
  congrArg (fun v => [v]) h.user_id

theorem pullRequest_key {a : PullRequest} (h : r.Shows a.data) :
    Schema.pullRequests.key r = [.id a.id] :=
  congrArg (fun v => [v]) h.pullRequest_id

theorem pair_key {a : Identifier × Identifier} (h : r.Shows (Pairs.data a)) :
    Schema.reviewers.key r = [.id a.1, .id a.2] :=
  congrArg₂ (fun v v' => [v, v']) h.pair_fst h.pair_snd

end Sql.Row.Shows

/-! ## Writing -/

namespace Sql.Contents.Holds

variable {t : Tables} {d : Contents} {row : Row}

theorem putTeam (h : d.Holds t) {team : Team} (sound : (t.putTeam team).Sound)
    (hrow : row.Shows team.data) : (d.put Schema.teams row).Holds (t.putTeam team) where
  sound := sound
  teams := by
    obtain ⟨f, hf⟩ := h.teams
    exact hf.put_key (fun a r hr => hr.team_key) hrow fun r => put_self ..
  users := files_put_of_ne h.users (by decide) row
  pullRequests := files_put_of_ne h.pullRequests (by decide) row
  pairs := files_put_of_ne h.pairs (by decide) row

theorem putUser (h : d.Holds t) {u : User} (sound : (t.putUser u).Sound)
    (hrow : row.Shows u.data) : (d.put Schema.users row).Holds (t.putUser u) where
  sound := sound
  teams := files_put_of_ne h.teams (by decide) row
  users := by
    obtain ⟨f, hf⟩ := h.users
    exact hf.put_key (fun a r hr => hr.user_key) hrow fun r => put_self ..
  pullRequests := files_put_of_ne h.pullRequests (by decide) row
  pairs := files_put_of_ne h.pairs (by decide) row

theorem putPullRequest (h : d.Holds t) {p : PullRequest} (sound : (t.putPullRequest p).Sound)
    (hrow : row.Shows p.data) :
    (d.put Schema.pullRequests row).Holds (t.putPullRequest p) where
  sound := sound
  teams := files_put_of_ne h.teams (by decide) row
  users := files_put_of_ne h.users (by decide) row
  pullRequests := by
    obtain ⟨f, hf⟩ := h.pullRequests
    exact hf.put_key (fun a r hr => hr.pullRequest_key) hrow fun r => put_self ..
  pairs := files_put_of_ne h.pairs (by decide) row

/-- Different pairs have different keys. -/
theorem pair_key_ne {p q : Identifier × Identifier} :
    [Datum.id q.1, .id q.2] ≠ [.id p.1, .id p.2] ↔ q ≠ p := by
  simp [Prod.ext_iff]

theorem insertPair (h : d.Holds t) {p : Identifier × Identifier} (hrow : row.Shows (Pairs.data p)) :
    (d.put Schema.reviewers row).Holds { t with reviewers := t.reviewers.insert p } where
  sound := h.sound.withReviewers _
  teams := files_put_of_ne h.teams (by decide) row
  users := files_put_of_ne h.users (by decide) row
  pullRequests := files_put_of_ne h.pullRequests (by decide) row
  pairs := by
    obtain ⟨f, hf⟩ := h.pairs
    refine ⟨_, hf.put Schema.reviewers.key (fun a => [.id a.1, .id a.2])
      (fun a r hr => hr.pair_key) hrow (fun r => put_self ..) fun b => ?_⟩
    rw [Pairs.mem_insert, pair_key_ne]
    by_cases he : b = p <;> simp [he]

theorem removePair (h : d.Holds t) (p : Identifier × Identifier) :
    (d.remove Schema.reviewers [.id p.1, .id p.2]).Holds
      { t with reviewers := t.reviewers.erase p } where
  sound := h.sound.withReviewers _
  teams := files_remove_of_ne h.teams (by decide) _
  users := files_remove_of_ne h.users (by decide) _
  pullRequests := files_remove_of_ne h.pullRequests (by decide) _
  pairs := by
    obtain ⟨f, hf⟩ := h.pairs
    refine ⟨_, hf.remove Schema.reviewers.key (fun a => [.id a.1, .id a.2])
      (fun a r hr => hr.pair_key) [.id p.1, .id p.2] (fun r => remove_self ..) fun b => ?_⟩
    rw [Pairs.mem_erase, pair_key_ne]
    exact and_comm

end Sql.Contents.Holds

/-! ## Finding -/

/-- Finding a value of a ledger in which values are filed under their own keys. -/
theorem Ledger.Keyed.find?_iff {α : Type} {key : α → Identifier} {l : Ledger α} (h : l.Keyed key)
    {k : Identifier} {a : α} : l.find? k = some a ↔ l.find? (key a) = some a ∧ key a = k := by
  constructor
  · intro ha
    obtain rfl := h k a ha
    exact ⟨ha, rfl⟩
  · rintro ⟨ha, rfl⟩
    exact ha

namespace Sql

/-- Conditions pick the row of an entity, if there is one, and no other row. -/
def Picks {α : Type} (d : Contents) (tb : Table) (conditions : List Condition)
    (data : α → List (Column × Datum)) (o : Option α) : Prop :=
  ∃ f : α → Row, (∀ a, o = some a → (f a).Shows (data a)) ∧
    ∀ rs, Lists d tb conditions rs ↔ rs = (o.map f).toList

/-- Conditions gather the rows of the entities with some property. -/
def Gathers {α : Type} (d : Contents) (tb : Table) (conditions : List Condition)
    (data : α → List (Column × Datum)) (p : α → Prop) : Prop :=
  ∃ f : α → Row, (∀ a, p a → (f a).Shows (data a)) ∧
    ∀ rs, Lists d tb conditions rs ↔
      ∃ as : List α, rs = as.map f ∧ as.Nodup ∧ ∀ a, a ∈ as ↔ p a

theorem Gathers.congr {α : Type} {d : Contents} {tb : Table} {conditions : List Condition}
    {data : α → List (Column × Datum)} {p q : α → Prop} (h : Gathers d tb conditions data p)
    (hq : ∀ a, p a ↔ q a) : Gathers d tb conditions data q := by
  have he : p = q := funext fun a => propext (hq a)
  rwa [← he]

end Sql

namespace Sql.Contents.Holds

variable {t : Tables} {d : Contents}

theorem lists_iff {tb : Table} {conditions : List Condition} {rs : List Row} :
    Lists d tb conditions rs ↔
      rs.Nodup ∧ ∀ r, r ∈ rs ↔ d tb.name r ∧ ∀ c ∈ conditions, c.Holds r :=
  ⟨fun h => ⟨h.nodup, h.mem⟩, fun h => ⟨h.1, h.2⟩⟩

section

variable {α : Type} {f : α → Row} {data : α → List (Column × Datum)} {mem p : α → Prop}
  {tb : Table} {conditions : List Condition}

theorem picks_of_files (h : Files f (d tb.name) data mem) (tells : Row.Tells data) {o : Option α}
    (ho : ∀ a, o = some a ↔ mem a ∧ p a)
    (hp : ∀ a, (f a).Shows (data a) → ((∀ c ∈ conditions, c.Holds (f a)) ↔ p a)) :
    Picks d tb conditions data o := by
  refine ⟨f, fun a ha => (h.shows a ((ho a).mp ha).1).2, fun rs => ?_⟩
  rw [lists_iff]
  exact h.listed_option_iff tells ho fun a ha => hp a (h.shows a ha).2

theorem gathers_of_files (h : Files f (d tb.name) data mem) (tells : Row.Tells data)
    (hp : ∀ a, (f a).Shows (data a) → ((∀ c ∈ conditions, c.Holds (f a)) ↔ p a)) :
    Gathers d tb conditions data fun a => mem a ∧ p a := by
  refine ⟨f, fun a ha => (h.shows a ha.1).2, fun rs => ?_⟩
  rw [lists_iff]
  exact h.listed_iff tells fun a ha => hp a (h.shows a ha).2

end

/-- The condition on the key picks the value that a ledger has under it. -/
theorem picks_of_ledger {α : Type} {f : α → Row} {data : α → List (Column × Datum)} {tb : Table}
    {l : Ledger α} {key : α → Identifier}
    (h : Files f (d tb.name) data fun x => l.find? (key x) = some x) (tells : Row.Tells data)
    (keyed : l.Keyed key)
    (hid : ∀ {a r}, Row.Shows (data a) r → r.value Schema.id.name = .id (key a)) (id : Identifier) :
    Picks d tb [.equals Schema.id (.id id)] data (l.find? id) := by
  refine picks_of_files h tells (fun a => keyed.find?_iff) fun a ha => ?_
  simp only [List.forall_mem_singleton, Condition.Holds, hid ha, Datum.id.injEq]

theorem picks_team (h : d.Holds t) (id : Identifier) :
    Picks d Schema.teams [.equals Schema.id (.id id)] Team.data (t.teams.find? id) := by
  obtain ⟨f, hf⟩ := h.teams
  exact picks_of_ledger hf Row.tells_team h.sound.teamKeys Row.Shows.team_id id

theorem picks_user (h : d.Holds t) (id : Identifier) :
    Picks d Schema.users [.equals Schema.id (.id id)] User.data (t.users.find? id) := by
  obtain ⟨f, hf⟩ := h.users
  exact picks_of_ledger hf Row.tells_user h.sound.userKeys Row.Shows.user_id id

theorem picks_pullRequest (h : d.Holds t) (id : Identifier) :
    Picks d Schema.pullRequests [.equals Schema.id (.id id)] PullRequest.data
      (t.pullRequests.find? id) := by
  obtain ⟨f, hf⟩ := h.pullRequests
  exact picks_of_ledger hf Row.tells_pullRequest h.sound.pullRequestKeys
    Row.Shows.pullRequest_id id

/-- The condition of a merge picks the row of a pull request that is open. -/
theorem picks_open (h : d.Holds t) (id : Identifier) :
    Picks d Schema.pullRequests
      [.equals Schema.id (.id id), .equals Schema.status (.status .opened)] PullRequest.data
      ((t.pullRequests.find? id).filter fun p => p.status = .opened) := by
  obtain ⟨f, hf⟩ := h.pullRequests
  refine picks_of_files hf Row.tells_pullRequest (p := fun a => a.id = id ∧ a.status = .opened)
    (fun a => ?_) fun a ha => ?_
  · rw [Option.filter_eq_some_iff, h.sound.pullRequestKeys.find?_iff, decide_eq_true_eq, and_assoc]
  · have hstatus : (f a).value Schema.status.name = .status a.status :=
      ha _ (.tail _ (.tail _ (.tail _ (.head _))))
    simp [Condition.Holds, ha.pullRequest_id, hstatus]

theorem picks_teamNamed (h : d.Holds t) (name : String) :
    Picks d Schema.teams [.equals Schema.name (.text name)] Team.data (t.teamNamed? name) := by
  obtain ⟨f, hf⟩ := h.teams
  refine picks_of_files hf Row.tells_team (p := fun a => a.name = name) (fun a => ?_) fun a ha => ?_
  · constructor
    · intro ha
      have hname : a.name = name := by simpa using List.find?_some ha
      exact ⟨h.sound.teamKeys.mem_values.mp (List.mem_of_find?_eq_some ha), hname⟩
    · rintro ⟨ha, rfl⟩
      cases hfound : t.teamNamed? a.name with
      | none => exact absurd rfl (Tables.teamNamed?_eq_none.mp hfound a.id a ha)
      | some b =>
        have hname : b.name = a.name := by simpa using List.find?_some hfound
        have hb := h.sound.teamKeys.mem_values.mp (List.mem_of_find?_eq_some hfound)
        have hid := h.sound.teamNames b.id a.id b a hb ha hname
        rw [hid, ha] at hb
        exact hb.symm
  · have hname : (f a).value Schema.name.name = .text a.name := ha _ (.tail _ (.head _))
    simp [Condition.Holds, hname]

theorem picks_pair (h : d.Holds t) (p u : Identifier) :
    Picks d Schema.reviewers
      [.equals Schema.pullRequestId (.id p), .equals Schema.userId (.id u)] Pairs.data
      (if (p, u) ∈ t.reviewers then some (p, u) else none) := by
  obtain ⟨f, hf⟩ := h.pairs
  refine picks_of_files hf Row.tells_pair (p := fun a => a = (p, u)) (fun a => ?_) fun a ha => ?_
  · rw [Option.ite_none_right_eq_some, Option.some.injEq]
    constructor
    · rintro ⟨hm, rfl⟩
      exact ⟨hm, rfl⟩
    · rintro ⟨hm, rfl⟩
      exact ⟨hm, rfl⟩
  · simp [Condition.Holds, ha.pair_fst, ha.pair_snd, Prod.ext_iff]

theorem gathers_usersOfTeam (h : d.Holds t) (teamId : Identifier) :
    Gathers d Schema.users [.equals Schema.teamId (.id teamId)] User.data
      fun a => t.users.find? a.id = some a ∧ a.teamId = teamId := by
  obtain ⟨f, hf⟩ := h.users
  refine gathers_of_files hf Row.tells_user fun a ha => ?_
  have hteam : (f a).value Schema.teamId.name = .id a.teamId :=
    ha _ (.tail _ (.tail _ (.tail _ (.head _))))
  simp [Condition.Holds, hteam]

theorem gathers_pullRequests (h : d.Holds t) (ids : List Identifier) :
    Gathers d Schema.pullRequests [.among Schema.id (ids.map .id)] PullRequest.data
      fun a => t.pullRequests.find? a.id = some a ∧ a.id ∈ ids := by
  obtain ⟨f, hf⟩ := h.pullRequests
  refine gathers_of_files hf Row.tells_pullRequest fun a ha => ?_
  simp [Condition.Holds, ha.pullRequest_id]

theorem gathers_reviewersOf (h : d.Holds t) (p : Identifier) :
    Gathers d Schema.reviewers [.equals Schema.pullRequestId (.id p)] Pairs.data
      fun x => x ∈ t.reviewers ∧ x.1 = p := by
  obtain ⟨f, hf⟩ := h.pairs
  refine gathers_of_files hf Row.tells_pair fun a ha => ?_
  simp [Condition.Holds, ha.pair_fst]

theorem gathers_reviewedBy (h : d.Holds t) (u : Identifier) :
    Gathers d Schema.reviewers [.equals Schema.userId (.id u)] Pairs.data
      fun x => x ∈ t.reviewers ∧ x.2 = u := by
  obtain ⟨f, hf⟩ := h.pairs
  refine gathers_of_files hf Row.tells_pair fun a ha => ?_
  simp [Condition.Holds, ha.pair_snd]

/-! ## Constraints on rows -/

theorem exists_team (h : d.Holds t) {id : Identifier} {team : Team}
    (hteam : t.teams.find? id = some team) :
    ∃ r, d Schema.teams.name r ∧ r.value Schema.id.name = .id id := by
  obtain ⟨f, hf⟩ := h.teams
  obtain ⟨r, hr, hshows, rfl⟩ := hf.exists_of_find? h.sound.teamKeys hteam
  exact ⟨r, hr, hshows.team_id⟩

theorem exists_teamNamed (h : d.Holds t) {name : String} {team : Team}
    (hteam : t.teamNamed? name = some team) :
    ∃ r, d Schema.teams.name r ∧ r.value Schema.name.name = .text name := by
  obtain ⟨f, hf⟩ := h.teams
  obtain rfl : team.name = name := by simpa using List.find?_some hteam
  have hstored := h.sound.teamKeys.mem_values.mp (List.mem_of_find?_eq_some hteam)
  obtain ⟨hr, hshows⟩ := hf.shows team hstored
  exact ⟨f team, hr, hshows _ (.tail _ (.head _))⟩

theorem exists_user (h : d.Holds t) {id : Identifier} {u : User}
    (hu : t.users.find? id = some u) :
    ∃ r, d Schema.users.name r ∧ r.value Schema.id.name = .id id := by
  obtain ⟨f, hf⟩ := h.users
  obtain ⟨r, hr, hshows, rfl⟩ := hf.exists_of_find? h.sound.userKeys hu
  exact ⟨r, hr, hshows.user_id⟩

theorem exists_pullRequest (h : d.Holds t) {id : Identifier} {p : PullRequest}
    (hp : t.pullRequests.find? id = some p) :
    ∃ r, d Schema.pullRequests.name r ∧ r.value Schema.id.name = .id id := by
  obtain ⟨f, hf⟩ := h.pullRequests
  obtain ⟨r, hr, hshows, rfl⟩ := hf.exists_of_find? h.sound.pullRequestKeys hp
  exact ⟨r, hr, hshows.pullRequest_id⟩

theorem distinct_teams (h : d.Holds t) : d.Distinct Schema.teams := by
  obtain ⟨f, hf⟩ := h.teams
  intro u hu r s hr hs hshare
  obtain rfl := List.mem_singleton.mp hu
  obtain ⟨a, ha, rfl⟩ := hf.only r hr
  obtain ⟨b, hb, rfl⟩ := hf.only s hs
  obtain ⟨hname, -⟩ := hshare Schema.name.name (.head _)
  have hna : (f a).value Schema.name.name = .text a.name :=
    (hf.shows a ha).2 _ (.tail _ (.head _))
  have hnb : (f b).value Schema.name.name = .text b.name :=
    (hf.shows b hb).2 _ (.tail _ (.head _))
  rw [hna, hnb, Datum.text.injEq] at hname
  exact congrArg f (h.sound.unambiguous.team_unique ha hb hname)

theorem distinct_users (h : d.Holds t) : d.Distinct Schema.users := by
  obtain ⟨f, hf⟩ := h.users
  intro u hu r s hr hs hshare
  obtain rfl := List.mem_singleton.mp hu
  obtain ⟨a, ha, rfl⟩ := hf.only r hr
  obtain ⟨b, hb, rfl⟩ := hf.only s hs
  obtain ⟨hteam, -⟩ := hshare Schema.teamId.name (.head _)
  obtain ⟨hname, -⟩ := hshare Schema.username.name (.tail _ (.head _))
  have hta : (f a).value Schema.teamId.name = .id a.teamId :=
    (hf.shows a ha).2 _ (.tail _ (.tail _ (.tail _ (.head _))))
  have htb : (f b).value Schema.teamId.name = .id b.teamId :=
    (hf.shows b hb).2 _ (.tail _ (.tail _ (.tail _ (.head _))))
  have hna : (f a).value Schema.username.name = .text a.username :=
    (hf.shows a ha).2 _ (.tail _ (.head _))
  have hnb : (f b).value Schema.username.name = .text b.username :=
    (hf.shows b hb).2 _ (.tail _ (.head _))
  rw [hta, htb, Datum.id.injEq] at hteam
  rw [hna, hnb, Datum.text.injEq] at hname
  exact congrArg f (h.sound.unambiguous.user_unique ha hb hteam hname)

end Sql.Contents.Holds

/-- Tables without unique combinations of columns have no duplicates besides those of the key. -/
theorem Sql.Contents.distinct_of_uniques {tb : Table} (h : tb.uniques = []) (d : Contents) :
    d.Distinct tb := by
  intro u hu
  rw [h] at hu
  cases hu

/-! ## Rows that break no constraint -/

namespace Sql.Contents.Holds

variable {t : Tables} {d : Contents} {row : Row}

/-- The row of a new team has a new key. -/
theorem key_ne_team (h : d.Holds t) {a : Team} (fresh : t.teams.find? a.id = none)
    (hrow : row.Shows a.data) (r : Row) (hr : d Schema.teams.name r) :
    Schema.teams.key r ≠ Schema.teams.key row := by
  obtain ⟨f, hf⟩ := h.teams
  exact hf.key_ne_of_find? (fun a r hr => hr.team_key) fresh hrow r hr

theorem key_ne_user (h : d.Holds t) {a : User} (fresh : t.users.find? a.id = none)
    (hrow : row.Shows a.data) (r : Row) (hr : d Schema.users.name r) :
    Schema.users.key r ≠ Schema.users.key row := by
  obtain ⟨f, hf⟩ := h.users
  exact hf.key_ne_of_find? (fun a r hr => hr.user_key) fresh hrow r hr

theorem key_ne_pullRequest (h : d.Holds t) {a : PullRequest}
    (fresh : t.pullRequests.find? a.id = none) (hrow : row.Shows a.data) (r : Row)
    (hr : d Schema.pullRequests.name r) :
    Schema.pullRequests.key r ≠ Schema.pullRequests.key row := by
  obtain ⟨f, hf⟩ := h.pullRequests
  exact hf.key_ne_of_find? (fun a r hr => hr.pullRequest_key) fresh hrow r hr

theorem key_ne_pair (h : d.Holds t) {p : Identifier × Identifier} (fresh : p ∉ t.reviewers)
    (hrow : row.Shows (Pairs.data p)) (r : Row) (hr : d Schema.reviewers.name r) :
    Schema.reviewers.key r ≠ Schema.reviewers.key row := by
  obtain ⟨f, hf⟩ := h.pairs
  refine hf.key_ne Schema.reviewers.key (fun a => [.id a.1, .id a.2]) (fun a r hr => hr.pair_key)
    hrow (fun b hb => ?_) r hr
  rw [pair_key_ne]
  rintro rfl
  exact fresh hb

end Sql.Contents.Holds

/-- A row can stand among the others of its table, and the contents with it hold tables. -/
structure Sql.Contents.Admits (d : Contents) (tb : Table) (row : Row) (t : Tables) : Prop where
  holds : (d.put tb row).Holds t
  distinct : (d.put tb row).Distinct tb
  full : row.Full tb
  refers : (d.put tb row).Refers tb row

namespace Sql.Contents.Holds

variable {t : Tables} {d : Contents} {row : Row}

theorem admits_team (h : d.Holds t) {a : Team} (sound : (t.putTeam a).Sound)
    (hrow : row.Shows a.data) : d.Admits Schema.teams row (t.putTeam a) where
  holds := h.putTeam sound hrow
  distinct := (h.putTeam sound hrow).distinct_teams
  full := by
    simp only [Row.Shows, Team.data, List.forall_mem_cons] at hrow
    obtain ⟨hid, hname, -⟩ := hrow
    simp [Row.Full, Schema.teams, hid, hname, Schema.created, Schema.modified]
  refers := by
    intro ref href
    cases href

theorem admits_user (h : d.Holds t) {u : User} (sound : (t.putUser u).Sound)
    (hrow : row.Shows u.data) : d.Admits Schema.users row (t.putUser u) where
  holds := h.putUser sound hrow
  distinct := (h.putUser sound hrow).distinct_users
  full := by
    simp only [Row.Shows, User.data, List.forall_mem_cons] at hrow
    obtain ⟨hid, hname, hactive, hteam, -⟩ := hrow
    simp [Row.Full, Schema.users, hid, hname, hactive, hteam, Schema.created, Schema.modified]
  refers := by
    intro ref href
    obtain rfl := List.mem_singleton.mp href
    obtain ⟨team, hteam⟩ := sound.userTeams u.id u (by rw [Tables.find?_putUser, if_pos rfl])
    have hvalue : row.value Schema.teamId.name = .id u.teamId :=
      hrow _ (.tail _ (.tail _ (.tail _ (.head _))))
    obtain ⟨r, hr, hid⟩ := (h.putUser sound hrow).exists_team hteam
    exact Or.inr ⟨r, hr, hid.trans hvalue.symm⟩

theorem admits_pullRequest (h : d.Holds t) {p : PullRequest} (sound : (t.putPullRequest p).Sound)
    (hrow : row.Shows p.data) : d.Admits Schema.pullRequests row (t.putPullRequest p) where
  holds := h.putPullRequest sound hrow
  distinct := distinct_of_uniques rfl _
  full := by
    simp only [Row.Shows, PullRequest.data, List.forall_mem_cons] at hrow
    obtain ⟨hid, hname, hauthor, hstatus, hcreated, -⟩ := hrow
    simp [Row.Full, Schema.pullRequests, hid, hname, hauthor, hstatus, hcreated, Schema.mergedAt]
  refers := by
    intro ref href
    obtain rfl := List.mem_singleton.mp href
    obtain ⟨author, hauthor⟩ := sound.authors p.id p (by rw [Tables.find?_putPullRequest, if_pos rfl])
    have hvalue : row.value Schema.authorId.name = .id p.authorId :=
      hrow _ (.tail _ (.tail _ (.head _)))
    obtain ⟨r, hr, hid⟩ := (h.putPullRequest sound hrow).exists_user hauthor
    exact Or.inr ⟨r, hr, hid.trans hvalue.symm⟩

theorem admits_pair (h : d.Holds t) {p u : Identifier} {pr : PullRequest} {user : User}
    (hp : t.pullRequests.find? p = some pr) (hu : t.users.find? u = some user)
    (hrow : row.Shows (Pairs.data (p, u))) :
    d.Admits Schema.reviewers row { t with reviewers := t.reviewers.insert (p, u) } where
  holds := h.insertPair hrow
  distinct := distinct_of_uniques rfl _
  full := by simp [Row.Full, Schema.reviewers, hrow.pair_fst, hrow.pair_snd]
  refers := by
    intro ref href
    rcases List.mem_cons.mp href with rfl | href
    · obtain ⟨r, hr, hid⟩ := (h.insertPair hrow).exists_pullRequest hp
      exact Or.inr ⟨r, hr, hid.trans hrow.pair_fst.symm⟩
    · obtain rfl := List.mem_singleton.mp href
      obtain ⟨r, hr, hid⟩ := (h.insertPair hrow).exists_user hu
      exact Or.inr ⟨r, hr, hid.trans hrow.pair_snd.symm⟩

end Sql.Contents.Holds

end ReviewRota
