import ReviewRota.Proofs.Ensuring
import ReviewRota.Proofs.Replies

/-!
# Looking things up in a database

The statements of a request that only looks come to what the request comes to on the tables that the
database holds, whatever order the rows come in. The constraints on the tables matter here: a team
has one user of a username, so that there is just one list of its users by username.
-/

namespace ReviewRota

open Sql

namespace Sql.Exchange

open StoreCall (absent)

theorem entity_row {α : Type} {read : Row → Checked α} {r : Row} {a : α} (h : read r = .valid a)
    (f : Failure) : entity read f (.row r) = .done a := by
  show checked (read r) = .done a
  rw [h]
  rfl

section Lookups

variable {β : Type} {Q : Outcome β} {w : World} {ws : List Write}

/-! ## Looking one row up -/

/-- The outcome of looking something up. -/
def found {α : Type} (o : Option α) (f : Failure) : Except Failure α :=
  match o with
  | some a => .ok a
  | none => .error f

theorem ensures_entity {α : Type} {tb : Table} {data : α → List (Column × Datum)}
    {conditions : List Condition} {o : Option α} {read : Row → Checked α} {lock : Bool} {f : Failure}
    {k : Except Failure α → Exchange β}
    (hpicks : ∀ d : Contents, d.Holds w.tables → Picks d tb conditions data o)
    (hread : ∀ {a r}, Row.Shows (data a) r → read (r.project tb.columns) = .valid a)
    (hk : Ensures Q (k (found o f)) w ws) :
    Ensures Q ((send .one (selectOne tb conditions lock) >>= entity read f).settle k) w ws := by
  simp only [send, Dialogue.settle_bind, Dialogue.settle_put]
  refine ensures_selectOne hpicks ?_ ?_
  · rintro rfl
    exact hk
  · rintro a r rfl hr
    simp only [entity_row (hread hr), Dialogue.settle_done]
    exact hk

theorem run_teamNamed (name : String) (w : World) : (StoreCall.teamNamed name).run w =
    (found (w.tables.teamNamed? name) (.named .notFound name), w) := by
  cases h : w.tables.teamNamed? name <;> simp [StoreCall.run, found, h]

theorem run_team (id : Identifier) (w : World) : (StoreCall.team id).run w =
    (found (w.tables.teams.find? id) (.about .notFound id), w) := by
  cases h : w.tables.teams.find? id <;> simp [StoreCall.run, found, absent, h]

theorem run_user (id : Identifier) (w : World) : (StoreCall.user id).run w =
    (found (w.tables.users.find? id) (.about .notFound id), w) := by
  cases h : w.tables.users.find? id <;> simp [StoreCall.run, found, absent, h]

theorem run_pullRequest (id : Identifier) (lock : Bool) (w : World) :
    (StoreCall.pullRequest id lock).run w =
      (found (w.tables.pullRequests.find? id) (.about .notFound id), w) := by
  cases h : w.tables.pullRequests.find? id <;> simp [StoreCall.run, found, absent, h]

theorem ensures_teamNamed (name : String) {k : Except Failure Team → Exchange β}
    (hk : Ensures Q (k ((StoreCall.teamNamed name).run w).1) w ws) :
    Ensures Q ((perform (.teamNamed name)).settle k) w ws := by
  rw [run_teamNamed] at hk
  exact ensures_entity (fun d hd => hd.picks_teamNamed name) Row.team_project hk

theorem ensures_team (id : Identifier) {k : Except Failure Team → Exchange β}
    (hk : Ensures Q (k ((StoreCall.team id).run w).1) w ws) :
    Ensures Q ((perform (.team id)).settle k) w ws := by
  rw [run_team] at hk
  exact ensures_entity (fun d hd => hd.picks_team id) Row.team_project hk

theorem ensures_user (id : Identifier) {k : Except Failure User → Exchange β}
    (hk : Ensures Q (k ((StoreCall.user id).run w).1) w ws) :
    Ensures Q ((perform (.user id)).settle k) w ws := by
  rw [run_user] at hk
  exact ensures_entity (fun d hd => hd.picks_user id) Row.user_project hk

theorem ensures_pullRequest (id : Identifier) (lock : Bool)
    {k : Except Failure PullRequest → Exchange β}
    (hk : Ensures Q (k ((StoreCall.pullRequest id lock).run w).1) w ws) :
    Ensures Q ((perform (.pullRequest id lock)).settle k) w ws := by
  rw [run_pullRequest] at hk
  exact ensures_entity (fun d hd => hd.picks_pullRequest id) Row.pullRequest_project hk

/-! ## Looking several rows up -/

theorem each_done {α γ δ : Type} {step : δ → Exchange γ} {f : α → δ} {g : α → γ} {as : List α}
    (h : ∀ a ∈ as, step (f a) = .done (g a)) :
    Dialogue.each step (as.map f) = .done (as.map g) := by
  induction as with
  | nil => rfl
  | cons a as ih =>
    rw [List.map_cons, Dialogue.each, h a List.mem_cons_self,
      ih fun b hb => h b (List.mem_cons_of_mem _ hb)]
    rfl

/-- A selection of all rows by conditions that gather the rows of some entities. A sort order of the
rows is one of the entities. -/
theorem ensures_selectAll {α : Type} {tb : Table} {data : α → List (Column × Datum)}
    {conditions : List Condition} {order : List SortKey} {cs : List Column} {p : α → Prop}
    {ordered : List α → Prop} {next : Except Failure Answer → Exchange β}
    (hgathers : ∀ d : Contents, d.Holds w.tables → Gathers d tb conditions data p)
    (hordered : ∀ (f : α → Row) as, (∀ a ∈ as, (f a).Shows (data a)) →
      ((as.map f).Pairwise (InOrder order) ↔ ordered as))
    (hlist : w.tables.Sound → ∃ as : List α, as.Nodup ∧ (∀ a, a ∈ as ↔ p a) ∧ ordered as)
    (hnext : w.tables.Sound → ∀ (f : α → Row) as, (∀ a ∈ as, (f a).Shows (data a)) → as.Nodup →
      (∀ a, a ∈ as ↔ p a) → ordered as → Ensures Q
        (next (.ok (.rows (as.map fun a => (f a).project cs)))) w ws) :
    Ensures Q (.ask (.send .all (.select tb cs conditions order none none false)) next)
      w ws := by
  refine ensures_select ?_ ?_
  · intro d hd
    obtain ⟨f, hshows, hlists⟩ := hgathers d hd
    obtain ⟨as, hnodup, hmem, has⟩ := hlist hd.sound
    have hall : ∀ a ∈ as, (f a).Shows (data a) := fun a ha => hshows a ((hmem a).mp ha)
    exact ⟨_, (hlists _).mpr ⟨as, rfl, hnodup, hmem⟩, (hordered f as hall).mpr has⟩
  · intro d rows hd hrows hsorted
    obtain ⟨f, hshows, hlists⟩ := hgathers d hd
    obtain ⟨as, rfl, hnodup, hmem⟩ := (hlists rows).mp hrows
    have hall : ∀ a ∈ as, (f a).Shows (data a) := fun a ha => hshows a ((hmem a).mp ha)
    show Ensures Q (next (.ok (.rows ((as.map f).map (Row.project cs))))) w ws
    rw [List.map_map]
    exact hnext hd.sound f as hall hnodup hmem ((hordered f as hall).mp hsorted)

/-- Rows of users in the order of a statement are users by username. -/
theorem inOrder_username (f : User → Row) (us : List User) (h : ∀ u ∈ us, (f u).Shows u.data) :
    (us.map f).Pairwise (InOrder [⟨Schema.username, false⟩]) ↔
      us.Pairwise fun a b => a.username ≤ b.username := by
  have hname : ∀ u ∈ us, (f u).value Schema.username.name = .text u.username :=
    fun u hu => h u hu _ (.tail _ (.head _))
  rw [List.pairwise_map]
  refine List.Pairwise.iff_of_mem fun {a b} ha hb => ?_
  simp [InOrder, SortKey.NotAfter, hname a ha, hname b hb, Datum.NotAfter]

theorem checked_of_read {α : Type} {c : Checked α} {a : α} (h : c = .valid a) :
    (checked c : Exchange α) = .done a := by
  rw [h]
  rfl

theorem entities_rows {α : Type} {read : Row → Checked α} {f : α → Row} {as : List α}
    (h : ∀ a ∈ as, read (f a) = .valid a) : entities read (.rows (as.map f)) = .done as := by
  have heach : entities read (.rows (as.map f)) = .done (as.map id) :=
    each_done fun a ha => checked_of_read (h a ha)
  rwa [List.map_id] at heach

theorem ensures_usersOfTeam (teamId : Identifier)
    {k : Except Failure (List User) → Exchange β}
    (hk : Ensures Q (k (.ok (w.tables.usersOfTeam teamId))) w ws) :
    Ensures Q ((perform (.usersOfTeam teamId)).settle k) w ws := by
  simp only [perform, send, Dialogue.settle_bind, Dialogue.settle_put]
  refine ensures_selectAll (fun d hd => hd.gathers_usersOfTeam teamId) inOrder_username
    (fun sound => ⟨_, sound.unambiguous.nodup_usersOfTeam teamId,
      fun u => sound.unambiguous.mem_usersOfTeam, w.tables.usersOfTeam_sorted teamId⟩) ?_
  intro sound f us hshows hnodup hmem hsorted
  simp only [entities_rows fun u hu => Row.user_project (hshows u hu), Dialogue.settle_done]
  rwa [sound.unambiguous.eq_usersOfTeam hnodup hmem hsorted]

/-- Without a sort order any list will do. -/
theorem inOrder_nil {α : Type} {data : α → List (Column × Datum)} (f : α → Row) (as : List α)
    (_ : ∀ a ∈ as, (f a).Shows (data a)) : (as.map f).Pairwise (InOrder []) ↔ True :=
  iff_true_intro (List.pairwise_of_forall fun _ _ => trivial)

/-- Pull requests come in any order. -/
theorem ensures_pullRequests {ids : List Identifier} (hids : ids.Nodup)
    {k : Except Failure (List PullRequest) → Exchange β}
    (hk : ∀ ps, ps.Perm (ids.filterMap w.tables.pullRequests.find?) → Ensures Q (k (.ok ps)) w ws) :
    Ensures Q ((perform (.pullRequests (ids.map .identifier))).settle k) w ws := by
  simp only [perform]
  split
  · rename_i hempty
    obtain rfl := List.map_eq_nil_iff.mp (List.isEmpty_iff.mp hempty)
    exact hk [] (.refl _)
  · have hdata : (ids.map Cell.identifier).map Datum.ofCell = ids.map .id := List.map_map
    simp only [send, Dialogue.settle_bind, Dialogue.settle_put]
    rw [hdata]
    refine ensures_selectAll (fun d hd => hd.gathers_pullRequests ids) inOrder_nil
      (fun sound => ⟨_, sound.unambiguous.nodup_named hids, ?_, trivial⟩) ?_
    · exact fun p => sound.unambiguous.mem_named
    · intro sound f ps hshows hnodup hps _
      simp only [entities_rows fun p hp => Row.pullRequest_project (hshows p hp), Dialogue.settle_done]
      exact hk ps (sound.unambiguous.perm_named hids hnodup hps)

/-! ## Looking pairs up -/

theorem cellIn_project {column : Column} {r : Row} {id : Identifier}
    (h : r.value column.name = .id id) : cellIn column (r.project [column]) = .done (.identifier id) := by
  simp [cellIn, Row.project, Row.find?, h, Datum.cell, Cell.unfit?]

/-- One part of the pairs that meet a condition, as a set. -/
theorem ensures_pairColumn {column : Column} {condition : Condition}
    {part : Identifier × Identifier → Identifier} {xs : List (Identifier × Identifier)}
    (hxs : xs.Nodup) {k : Except Failure (List Cell) → Exchange β}
    (hgathers : ∀ d : Contents, d.Holds w.tables →
      Gathers d Schema.reviewers [condition] Pairs.data fun x => x ∈ xs)
    (hpart : ∀ {x r}, Row.Shows (Pairs.data x) r → r.value column.name = .id (part x))
    (hk : Ensures Q (k (.ok ((Identifier.setOf (xs.map part)).map .identifier))) w ws) :
    Ensures Q ((pairColumn column condition).settle k) w ws := by
  simp only [pairColumn, send, Dialogue.settle_bind, Dialogue.settle_put]
  refine ensures_selectAll hgathers inOrder_nil
    (fun _ => ⟨xs, hxs, fun x => Iff.rfl, trivial⟩) ?_
  intro _ f ys hshows hnodup hys _
  have hsame : Identifier.setOf (ys.map part) = Identifier.setOf (xs.map part) :=
    Identifier.setOf_congr fun i => by simp only [List.mem_map, hys]
  have heach : Dialogue.each (cellIn column)
      (ys.map fun x => (f x).project [column]) = .done (ys.map fun x => .identifier (part x)) :=
    each_done fun x hx => cellIn_project (hpart (hshows x hx))
  have hset : Cell.setOf (ys.map fun x => .identifier (part x)) =
      (Identifier.setOf (xs.map part)).map .identifier := by
    rw [← hsame, ← Cell.setOf_map_identifier, List.map_map]
    rfl
  simp only [Answer.allRows, heach, Dialogue.settle_done, Dialogue.settle_pure, hset]
  exact hk

theorem ensures_reviewersOf (p : Identifier)
    {k : Except Failure (List Cell) → Exchange β}
    (hk : Ensures Q (k (.ok ((w.tables.reviewers.reviewersOf p).map .identifier))) w ws) :
    Ensures Q ((perform (.reviewersOf p)).settle k) w ws := by
  have hxs := w.tables.reviewers.distinct.filter fun x => x.1 = p
  refine ensures_pairColumn hxs (fun d hd => (hd.gathers_reviewersOf p).congr fun x => ?_)
    Row.Shows.pair_snd hk
  rw [List.mem_filter, decide_eq_true_eq]
  exact Iff.rfl

theorem ensures_reviewedBy (u : Identifier)
    {k : Except Failure (List Cell) → Exchange β}
    (hk : Ensures Q (k (.ok ((w.tables.reviewers.reviewedBy u).map .identifier))) w ws) :
    Ensures Q ((perform (.reviewedBy u)).settle k) w ws := by
  have hxs := w.tables.reviewers.distinct.filter fun x => x.2 = u
  refine ensures_pairColumn hxs (fun d hd => (hd.gathers_reviewedBy u).congr fun x => ?_)
    Row.Shows.pair_fst hk
  rw [List.mem_filter, decide_eq_true_eq]
  exact Iff.rfl

end Lookups

end Sql.Exchange

end ReviewRota
