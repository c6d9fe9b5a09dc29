import ReviewRota.Proofs.Candidates
import ReviewRota.Proofs.Reachable

/-!
# Creating a pull request

Everything that the creation of a pull request comes to on tables in memory. `Tables.Opened` lists the
cases in terms of what is stored: each says when it arises, what the answer is and which tables are
committed afterwards. The reviewers depend on nothing but the candidates and the draws.
-/

namespace ReviewRota

namespace Tables

/-- A pull request with its reviewers is there that was not there before, and nothing else is
different. -/
structure Added (t : Tables) (p : PullRequest) (reviewers : List Identifier) (t' : Tables) : Prop where
  teams : t'.teams = t.teams
  users : t'.users = t.users
  pullRequests : ∀ k, t'.pullRequests.find? k = if k = p.id then some p else t.pullRequests.find? k
  reviewers : ∀ u, (p.id, u) ∈ t'.reviewers ↔ u ∈ reviewers
  others : ∀ k u, k ≠ p.id → ((k, u) ∈ t'.reviewers ↔ (k, u) ∈ t.reviewers)

/-- Nothing is left of an earlier pull request of the same identifier, since there was none. -/
theorem Coherent.added_addPullRequest {t : Tables} (h : t.Coherent) {p : PullRequest}
    (unknown : t.pullRequests.find? p.id = none) (reviewers : List Identifier) :
    t.Added p reviewers (t.addPullRequest p reviewers) where
  teams := rfl
  users := rfl
  pullRequests := find?_addPullRequest p reviewers
  reviewers u := by
    have hnone := h.not_mem_of_unknown unknown u
    simp [mem_addPullRequest, hnone]
  others k u hk := by simp [mem_addPullRequest, hk]

/-- A pull request that was put in is read with its reviewers by identifier. -/
theorem Added.exists_review {t t' : Tables} {p : PullRequest} {reviewers : List Identifier}
    (h : t.Added p reviewers t') : ∃ ids : List Identifier,
      ids.Pairwise (fun a b => a.toNat < b.toNat) ∧ (∀ u, u ∈ ids ↔ u ∈ reviewers) ∧
        ∀ later, ((Operation.review p.id).on ⟨t', later⟩).1 = .ok ⟨p, ids⟩ := by
  have hstored : t'.pullRequests.find? p.id = some p := (h.pullRequests p.id).trans (if_pos rfl)
  refine ⟨t'.reviewers.reviewersOf p.id, Pairs.reviewersOf_sorted _ _, ?_, ?_⟩
  · intro u
    exact Pairs.mem_reviewersOf.trans (h.reviewers u)
  · intro later
    rw [Program.on_review hstored]

/-- What the creation of a pull request comes to when the clock shows `now`, with the tables that it
leaves. -/
inductive Opened (t : Tables) (id : Identifier) (name : String) (authorId : Identifier)
    (draws : Draws) (now : Instant) : Except Failure Review → Tables → Prop where
  | noAuthor (unknown : t.users.find? authorId = none) :
      Opened t id name authorId draws now (.error (.about .authorNotFound authorId)) t
  | taken {author : User} {p : PullRequest} (author : t.users.find? authorId = some author)
      (known : t.pullRequests.find? id = some p) :
      Opened t id name authorId draws now (.error (.about .pullRequestExists id)) t
  /-- The candidates are shuffled in the order of their usernames, and the first two are taken. -/
  | opened {author : User} {candidates : List User} {reviewers : List Identifier} {t' : Tables}
      (author : t.users.find? authorId = some author)
      (unknown : t.pullRequests.find? id = none)
      (pool : Roll (t.Candidate authorId) candidates)
      (drawn : reviewers =
        (Selection.shuffle (candidates.map User.id) draws).take (min 2 candidates.length))
      (distinct : reviewers.Nodup)
      (added : t.Added ⟨id, name, authorId, .opened, now, none⟩ reviewers t') :
      Opened t id name authorId draws now
        (.ok ⟨⟨id, name, authorId, .opened, now, none⟩, reviewers⟩) t'

namespace Opened

variable {t t' t₁ t₂ : Tables} {id id' : Identifier} {name name' : String} {authorId : Identifier}
  {draws : Draws} {now now' : Instant} {a b : Except Failure Review} {r r' : Review}

/-- **The same candidates and the same draws make the same reviewers**, whatever else is stored. -/
theorem reviewers_eq (h : t.Opened id name authorId draws now (.ok r) t₁)
    (h' : t'.Opened id' name' authorId draws now' (.ok r') t₂)
    (same : ∀ u, t.Candidate authorId u ↔ t'.Candidate authorId u) : r.reviewers = r'.reviewers := by
  cases h with
  | @opened _ us _ _ _ _ pool drawn =>
    cases h' with
    | @opened _ vs _ _ _ _ pool' drawn' =>
      obtain rfl : us = vs := pool.unique pool' same
      exact drawn.trans drawn'.symm

/-- No two cases arise together. -/
theorem unique (h : t.Opened id name authorId draws now a t₁)
    (h' : t.Opened id name authorId draws now b t₂) : a = b := by
  cases h with
  | @opened _ _ ids _ author unknown pool drawn distinct added =>
    cases h' with
    | @opened _ _ ids' _ author' unknown' pool' drawn' distinct' added' =>
      have hids : ids = ids' := reviewers_eq (.opened author unknown pool drawn distinct added)
        (.opened author' unknown' pool' drawn' distinct' added') fun _ => Iff.rfl
      rw [hids]
    | _ => simp_all
  | _ => cases h' <;> simp_all

/-- A creation that is refused leaves the tables as they are. -/
theorem eq_of_error {f : Failure} (h : t.Opened id name authorId draws now (.error f) t') : t' = t := by
  cases h <;> rfl

end Opened

/-- On tables alone a creation comes to one of the cases, and afterwards the pull request is read
with the reviewers of the answer by identifier. -/
theorem Coherent.exists_opened {t : Tables} (h : t.Coherent) (id : Identifier) (name : String)
    (authorId : Identifier) (draws : Draws) (supply : Supply) :
    ∃ answer w, (Operation.openPullRequest id name authorId draws usualReviewers).on ⟨t, supply⟩ =
        (answer, w) ∧
      t.Opened id name authorId draws supply.readClock.1 answer w.tables ∧
      ∀ r, answer = .ok r → ∃ ids : List Identifier,
        ids.Pairwise (fun a b => a.toNat < b.toNat) ∧ (∀ u, u ∈ ids ↔ u ∈ r.reviewers) ∧
          ∀ later, ((Operation.review id).on ⟨w.tables, later⟩).1 = .ok ⟨r.pullRequest, ids⟩ := by
  cases ha : t.users.find? authorId with
  | none =>
    exact ⟨_, _, Program.on_openPullRequest_noAuthor ha name draws _, .noAuthor ha, by rintro r ⟨⟩⟩
  | some author =>
    obtain rfl : author.id = authorId := h.unambiguous.userKeys authorId author ha
    cases hp : t.pullRequests.find? id with
    | some p =>
      exact ⟨_, _, Program.on_openPullRequest_exists ha hp name draws _, .taken ha hp,
        by rintro r ⟨⟩⟩
    | none =>
      obtain ⟨candidates, hpool, hids⟩ := h.unambiguous.exists_candidates ha
      have hon := Program.on_openPullRequest_new (w := ⟨t, supply⟩) h ha hp name draws usualReviewers
      have hadded := h.added_addPullRequest (p := .opening id name author.id supply.readClock.1) hp
        (Selection.reviewers (t.pool author) usualReviewers draws)
      have hdistinct := Selection.nodup_reviewers (h.unambiguous.nodup_pool author) usualReviewers
        draws
      refine ⟨_, _, hon, .opened ha hp hpool ?_ hdistinct hadded, ?_⟩
      · -- two is the usual number of reviewers, and there are no more than the candidates
        have hlength : (Selection.shuffle (t.pool author) draws).length = candidates.length := by
          rw [(Selection.shuffle_perm _ draws).length_eq, ← hids, List.length_map]
        show List.take 2 (Selection.shuffle (t.pool author) draws) = _
        rw [hids, List.take_eq_take_iff, hlength]
        omega
      · rintro r ⟨⟩
        exact hadded.exists_review

/-- A team of five, one of whom is away. -/
def crowded : Tables :=
  (Work.requesting [.createTeam "core",
    .createUser "ann" true (Supply.serial 1) (some (.ofNat 1)),
    .createUser "bob" true (Supply.serial 1) (some (.ofNat 2)),
    .createUser "cid" true (Supply.serial 1) (some (.ofNat 3)),
    .createUser "dee" true (Supply.serial 1) (some (.ofNat 4)),
    .createUser "eve" false (Supply.serial 1) (some (.ofNat 5))]).leaves .empty default

theorem reachable_crowded : crowded.Reachable := .operation .empty _ _

/-- All of the team but the author and the one who is away are candidates. -/
theorem pool_crowded :
    crowded.pool ⟨.ofNat 1, "ann", true, Supply.serial 1⟩ = [.ofNat 2, .ofNat 3, .ofNat 4] := by
  have hteam : crowded.usersOfTeam (Supply.serial 1) =
      crowded.users.values.filter fun u => u.teamId = Supply.serial 1 :=
    List.mergeSort_of_pairwise (by decide)
  rw [pool, hteam]
  decide

end Tables

namespace Session.Rests

variable {name : String} {t : Tables} {s : Session}

/-- **The creation of a pull request comes to the one case that arises.** When it succeeds, whoever
reads the pull request next gets it with its reviewers by identifier, and it has the reviewers that
it would have got next to any other tables with the same candidates. -/
theorem comes_to_opened (hs : s.Rests name t) (ht : t.Reachable) (id : Identifier) (title : String)
    (authorId : Identifier) (draws : Draws) :
    ∃ answer t' s', (Course.command name (.openPullRequest id title authorId draws usualReviewers)).run
        s = some (answer, s') ∧
      s'.Rests name t' ∧ t.Opened id title authorId draws s.supply.readClock.1 answer t' ∧
      (∀ other t₂, t.Opened id title authorId draws s.supply.readClock.1 other t₂ → other = answer) ∧
      ∀ r, answer = .ok r →
        (∃ ids s'', (Course.query name (.review id)).run s' = some (.ok ⟨r.pullRequest, ids⟩, s'') ∧
          ids.Pairwise (fun a b => a.toNat < b.toNat) ∧ ∀ u, u ∈ ids ↔ u ∈ r.reviewers) ∧
        ∀ (elsewhere t₂ : Tables) id' title' now r',
          (∀ u, elsewhere.Candidate authorId u ↔ t.Candidate authorId u) →
            elsewhere.Opened id' title' authorId draws now (.ok r') t₂ →
              r'.reviewers = r.reviewers := by
  obtain ⟨answer, w, hon, hcase, hread⟩ :=
    ht.coherent.exists_opened id title authorId draws s.supply
  obtain ⟨s', hrun, hs'⟩ :=
    Task.command_of_on (c := .openPullRequest id title authorId draws usualReviewers) hs hon
  have hunique : ∀ other t₂, t.Opened id title authorId draws s.supply.readClock.1 other t₂ →
      other = answer := fun other t₂ h => h.unique hcase
  cases answer with
  | error f =>
    refine ⟨.error f, t, s', hrun, hs', hcase.eq_of_error ▸ hcase, hunique, ?_⟩
    rintro r ⟨⟩
  | ok r =>
    refine ⟨.ok r, w.tables, s', hrun, hs', hcase, hunique, ?_⟩
    rintro _ ⟨⟩
    constructor
    · obtain ⟨ids, hsorted, hmembers, hreview⟩ := hread r rfl
      obtain ⟨s'', hquery, -⟩ := Task.query_keeps hs' (.review id)
      exact ⟨ids, s'', hreview s'.supply ▸ hquery, hsorted, hmembers⟩
    · intro elsewhere t₂ id' title' now r' same h
      exact h.reviewers_eq hcase same

open Tables (crowded reachable_crowded pool_crowded) in
/-- The first of the team opens a pull request. The draws exchange the first candidate with the last one,
so it is the last two who review it, the last one first. They are read in the order of their identifiers. -/
theorem comes_to_opened_crowded :
    crowded.Reachable ∧ (Session.holding "rota" crowded default).Rests "rota" crowded ∧
      ∃ r t' s' s'', (Course.command "rota"
          (.openPullRequest (.ofNat 8) "docs" (.ofNat 1) [0, 1] usualReviewers)).run
            (.holding "rota" crowded default) = some (.ok r, s') ∧
        s'.Rests "rota" t' ∧
        crowded.Opened (.ofNat 8) "docs" (.ofNat 1) [0, 1] (Supply.readClock default).1 (.ok r) t' ∧
        r.reviewers = [.ofNat 4, .ofNat 3] ∧
        (Course.query "rota" (.review (.ofNat 8))).run s' =
          some (.ok ⟨r.pullRequest, [.ofNat 3, .ofNat 4]⟩, s'') := by
  have hs := Session.rests_holding "rota" crowded default
  obtain ⟨answer, t', s', hrun, hs', hcase, -, hread⟩ :=
    hs.comes_to_opened reachable_crowded (.ofNat 8) "docs" (.ofNat 1) [0, 1]
  have hann : crowded.users.find? (User.mk (.ofNat 1) "ann" true (Supply.serial 1)).id =
      some ⟨.ofNat 1, "ann", true, Supply.serial 1⟩ := by decide
  have hfree : crowded.pullRequests.find? (.ofNat 8) = none := by decide
  have hon := Program.on_openPullRequest_new (w := ⟨crowded, default⟩) reachable_crowded.coherent hann
    hfree "docs" [0, 1] usualReviewers
  obtain ⟨s₁, hopened, -⟩ :=
    Task.command_of_on (c := .openPullRequest (.ofNat 8) "docs" (.ofNat 1) [0, 1] usualReviewers) hs hon
  cases hrun.symm.trans hopened
  have hdrawn : Selection.reviewers (crowded.pool ⟨.ofNat 1, "ann", true, Supply.serial 1⟩) usualReviewers
      [0, 1] = [.ofNat 4, .ofNat 3] := by
    rw [pool_crowded]
    decide
  obtain ⟨⟨ids, s'', hquery, hsorted, hmembers⟩, -⟩ := hread _ rfl
  have hids : ids = [.ofNat 3, .ofNat 4] := by
    have hirrefl : Std.Irrefl fun a b : Identifier => a.toNat < b.toNat := ⟨fun a => Nat.lt_irrefl _⟩
    have hantisymm : Std.Antisymm fun a b : Identifier => a.toNat < b.toNat :=
      ⟨fun a b hab hba => absurd hba (Nat.lt_asymm hab)⟩
    refine hsorted.eq_of_mem_iff (by decide) fun u => (hmembers u).trans ?_
    simp only [hdrawn, List.mem_cons, List.not_mem_nil, or_false]
    exact or_comm
  exact ⟨reachable_crowded, hs, _, t', s', s'', hrun, hs', hcase, hdrawn, hids ▸ hquery⟩

end Session.Rests

end ReviewRota
