import ReviewRota.Proofs.Candidates
import ReviewRota.Proofs.Reachable

/-!
# Replacing a reviewer

Everything that a replacement comes to on tables in memory. `Tables.Reassigned` lists the cases: each
says when it arises, what the answer is and which tables are committed afterwards, in terms of what
is stored. No two cases with different answers arise together, and on reachable tables there is
always one.
-/

namespace ReviewRota

namespace Selection

variable {candidates : List Identifier}

theorem below_eq (n : Nat) (ds : Draws) : (below n ds).1 = ds.headD 0 % n := by
  cases ds with
  | nil => exact (Nat.zero_mod n).symm
  | cons d ds => rfl

/-- The replacement is the user at the place that the first draw gives, or the first one without
draws. -/
theorem exists_drawn {us : List User} (h : us.map User.id = candidates) (hne : us ≠ [])
    (draws : Draws) : ∃ new, us[draws.headD 0 % us.length]? = some new ∧
      replacement candidates draws = .ok new.id := by
  have hlt : draws.headD 0 % us.length < us.length := Nat.mod_lt _ (List.length_pos_iff.mpr hne)
  refine ⟨us[draws.headD 0 % us.length], List.getElem?_eq_getElem hlt, ?_⟩
  unfold replacement
  rw [below_eq, ← h, List.length_map, List.getElem?_map, List.getElem?_eq_getElem hlt]
  rfl

end Selection

namespace Tables

/-- In the set of the reviewers of one pull request one reviewer stands in the place of another, and
nothing else is different. -/
structure Replaced (t : Tables) (id old new : Identifier) (t' : Tables) : Prop where
  teams : t'.teams = t.teams
  users : t'.users = t.users
  pullRequests : t'.pullRequests = t.pullRequests
  reviewers : ∀ u, (id, u) ∈ t'.reviewers ↔ u = new ∨ (u ≠ old ∧ (id, u) ∈ t.reviewers)
  others : ∀ k u, k ≠ id → ((k, u) ∈ t'.reviewers ↔ (k, u) ∈ t.reviewers)

theorem replaced_replaceReviewer (t : Tables) (id old new : Identifier) :
    t.Replaced id old new (t.replaceReviewer id old new) where
  teams := rfl
  users := rfl
  pullRequests := rfl
  reviewers u := by simp [mem_replaceReviewer]
  others k u hk := by simp [mem_replaceReviewer, hk]

/-- What the replacement of `old` as a reviewer of a pull request comes to, with the tables that it
leaves. -/
inductive Reassigned (t : Tables) (id old : Identifier) (draws : Draws) :
    Except Failure Replacement → Tables → Prop where
  | unknown (unknown : t.pullRequests.find? id = none) :
      Reassigned t id old draws (.error (.about .pullRequestNotFound id)) t
  | merged {p : PullRequest} (known : t.pullRequests.find? id = some p)
      (merged : p.status = .merged) :
      Reassigned t id old draws (.error (.about .pullRequestMerged id)) t
  | notAssigned {p : PullRequest} (known : t.pullRequests.find? id = some p)
      (opened : p.status = .opened) (unassigned : (id, old) ∉ t.reviewers) :
      Reassigned t id old draws (.error (.about .reviewerNotAssigned old)) t
  | noCandidate {p : PullRequest} (known : t.pullRequests.find? id = some p)
      (opened : p.status = .opened) (assigned : (id, old) ∈ t.reviewers)
      (nobody : ∀ u, ¬ t.Substitute p old u) :
      Reassigned t id old draws (.error (.about .noCandidate old)) t
  /-- The first draw decides who of the substitutes it is, in the order of their usernames. The
  answer holds the pull request, its new reviewers by identifier and the one who has come. -/
  | replaced {p : PullRequest} {candidates : List User} {new : User} {reviewers : List Identifier}
      {t' : Tables} (known : t.pullRequests.find? id = some p)
      (opened : p.status = .opened) (assigned : (id, old) ∈ t.reviewers)
      (pool : Roll (t.Substitute p old) candidates)
      (drawn : candidates[draws.headD 0 % candidates.length]? = some new)
      (replaced : t.Replaced id old new.id t')
      (sorted : reviewers.Pairwise fun a b => a.toNat < b.toNat)
      (members : ∀ u, u ∈ reviewers ↔ (id, u) ∈ t'.reviewers) :
      Reassigned t id old draws (.ok ⟨⟨p, reviewers⟩, new.id⟩) t'

/-- No two cases with different answers arise together. -/
theorem Reassigned.unique {t t₁ t₂ : Tables} {id old : Identifier} {draws : Draws}
    {a b : Except Failure Replacement} (h : t.Reassigned id old draws a t₁)
    (h' : t.Reassigned id old draws b t₂) : a = b := by
  cases h with
  | @noCandidate p known _ _ nobody =>
    cases h' with
    | @replaced _ _ new _ _ known' _ _ pool drawn =>
      rw [known] at known'
      cases known'
      have hnew := (pool.mem new).mp (List.mem_of_getElem? drawn)
      exact absurd hnew (nobody new)
    | _ => simp_all
  | @replaced p us new ids _ known _ _ pool drawn replaced sorted members =>
    cases h' with
    | noCandidate known' _ _ nobody =>
      rw [known] at known'
      cases known'
      have hnew := (pool.mem new).mp (List.mem_of_getElem? drawn)
      exact absurd hnew (nobody new)
    | @replaced _ us' new' ids' _ known' _ _ pool' drawn' replaced' sorted' members' =>
      rw [known] at known'
      cases known'
      obtain rfl : us = us' := pool.unique pool' fun _ => Iff.rfl
      rw [drawn] at drawn'
      cases drawn'
      have hids : ids = ids' := by
        refine Identifier.eq_of_strictly_sorted sorted sorted' fun u => ?_
        rw [members, members', replaced.reviewers, replaced'.reviewers]
      rw [hids]
    | _ => simp_all
  | _ => cases h' <;> simp_all

/-- A replacement that is refused leaves the tables as they are. -/
theorem Reassigned.eq_of_error {t t' : Tables} {id old : Identifier} {draws : Draws} {f : Failure}
    (h : t.Reassigned id old draws (.error f) t') : t' = t := by
  cases h <;> rfl

/-- A reviewer is replaced whenever there is somebody who can take his place. -/
theorem Reassigned.exists_ok {t t' : Tables} {id old : Identifier} {draws : Draws}
    {answer : Except Failure Replacement} (h : t.Reassigned id old draws answer t') {p : PullRequest}
    (known : t.pullRequests.find? id = some p) (opened : p.status = .opened)
    (assigned : (id, old) ∈ t.reviewers) {u : User} (free : t.Substitute p old u) :
    ∃ r, answer = .ok r := by
  cases h with
  | unknown unknown =>
    rw [known] at unknown
    cases unknown
  | merged known' merged =>
    rw [known] at known'
    cases known'
    rw [opened] at merged
    cases merged
  | notAssigned _ _ unassigned => exact absurd assigned unassigned
  | noCandidate known' _ _ nobody =>
    rw [known] at known'
    cases known'
    exact absurd free (nobody u)
  | replaced => exact ⟨_, rfl⟩

/-- On tables alone a replacement comes to one of the cases, and afterwards the pull request is read
with the reviewers of the answer. -/
theorem Coherent.exists_reassigned {t : Tables} (h : t.Coherent) (id old : Identifier)
    (draws : Draws) (supply : Supply) :
    ∃ answer w, (Operation.reassign id old draws).on ⟨t, supply⟩ = (answer, w) ∧
      t.Reassigned id old draws answer w.tables ∧
      ∀ r, answer = .ok r → ∀ later,
        ((Operation.review id).on ⟨w.tables, later⟩).1 = .ok r.toReview := by
  cases hp : t.pullRequests.find? id with
  | none => exact ⟨_, _, Program.on_reassign_unknown hp old draws, .unknown hp, by rintro r ⟨⟩⟩
  | some p =>
    obtain rfl : p.id = id := h.unambiguous.pullRequestKeys id p hp
    cases hstatus : p.status with
    | merged =>
      exact ⟨_, _, Program.on_reassign_merged hp hstatus old draws, .merged hp hstatus,
        by rintro r ⟨⟩⟩
    | opened =>
      by_cases hold : (p.id, old) ∈ t.reviewers
      · obtain ⟨author, ha⟩ := h.authors p.id p hp
        obtain ⟨pool, hpool, hids⟩ := h.unambiguous.exists_substitutes ha old
        by_cases hnone : pool = []
        · subst hnone
          have hon := Program.on_reassign_noCandidate (w := ⟨t, supply⟩) hp hstatus hold ha hids.symm
            draws
          have hnobody : ∀ u, ¬ t.Substitute p old u := fun u hu =>
            List.not_mem_nil ((hpool.mem u).mpr hu)
          exact ⟨_, _, hon, .noCandidate hp hstatus hold hnobody, by rintro r ⟨⟩⟩
        · obtain ⟨new, hdrawn, hreplacement⟩ := Selection.exists_drawn hids hnone draws
          have hnew : new.id ∈ t.substitutes p author old :=
            hids ▸ List.mem_map_of_mem (List.mem_of_getElem? hdrawn)
          have hon := Program.on_reassign_replaced (w := ⟨t, supply⟩) h.unambiguous hp hstatus hold ha
            hnew hreplacement
          refine ⟨_, _, hon, ?_, ?_⟩
          · exact .replaced hp hstatus hold hpool hdrawn (t.replaced_replaceReviewer p.id old new.id)
              (Pairs.reviewersOf_sorted p.id _) fun u => Pairs.mem_reviewersOf
          · rintro r ⟨⟩ later
            have hstored : (t.replaceReviewer p.id old new.id).pullRequests.find? p.id = some p := hp
            rw [Program.on_review hstored]
      · exact ⟨_, _, Program.on_reassign_notAssigned hp hstatus hold draws,
          .notAssigned hp hstatus hold, by rintro r ⟨⟩⟩

end Tables

namespace Session.Rests

variable {name : String} {t : Tables} {s : Session}

/-- **A replacement comes to the one case that arises**, and when it succeeds, whoever reads the pull
request next gets it with the reviewers of the answer. -/
theorem comes_to_reassigned (hs : s.Rests name t) (ht : t.Reachable) (id old : Identifier) (draws : Draws) :
    ∃ answer t' s', (Course.command name (.reassign id old draws)).run s = some (answer, s') ∧
      s'.Rests name t' ∧ t.Reassigned id old draws answer t' ∧
      (∀ other t₂, t.Reassigned id old draws other t₂ → other = answer) ∧
      ∀ r, answer = .ok r → ∃ s'', (Course.query name (.review id)).run s' =
        some (.ok r.toReview, s'') := by
  obtain ⟨answer, w, hon, hcase, hread⟩ := ht.coherent.exists_reassigned id old draws s.supply
  obtain ⟨s', hrun, hs'⟩ := Task.command_of_on (c := .reassign id old draws) hs hon
  have hunique : ∀ other t₂, t.Reassigned id old draws other t₂ → other = answer :=
    fun other t₂ h => h.unique hcase
  cases answer with
  | error f =>
    refine ⟨.error f, t, s', hrun, hs', hcase.eq_of_error ▸ hcase, hunique, ?_⟩
    rintro r ⟨⟩
  | ok r =>
    refine ⟨.ok r, w.tables, s', hrun, hs', hcase, hunique, ?_⟩
    rintro _ ⟨⟩
    obtain ⟨s'', hquery, -⟩ := Task.query_keeps hs' (.review id)
    exact ⟨s'', hread r rfl s'.supply ▸ hquery⟩

open Tables (staffed reachable_staffed) in
/-- The only reviewer is replaced by the third of the team. -/
theorem comes_to_reassigned_staffed :
    staffed.Reachable ∧ (Session.holding "rota" staffed default).Rests "rota" staffed ∧
      ∃ r t' s', (Course.command "rota" (.reassign (.ofNat 7) (.ofNat 2) [])).run
          (.holding "rota" staffed default) = some (.ok r, s') ∧
        s'.Rests "rota" t' ∧ staffed.Reassigned (.ofNat 7) (.ofNat 2) [] (.ok r) t' ∧
        ∃ s'', (Course.query "rota" (.review (.ofNat 7))).run s' = some (.ok r.toReview, s'') := by
  have hs := Session.rests_holding "rota" staffed default
  obtain ⟨answer, t', s', hrun, hs', hcase, -, hread⟩ :=
    hs.comes_to_reassigned reachable_staffed (.ofNat 7) (.ofNat 2) []
  have hp : staffed.pullRequests.find? (.ofNat 7) =
      some (.opening (.ofNat 7) "fix" (.ofNat 1) (Supply.readClock default).1) := by decide
  have hcid : staffed.Substitute (.opening (.ofNat 7) "fix" (.ofNat 1) (Supply.readClock default).1)
      (.ofNat 2) ⟨.ofNat 3, "cid", true, Supply.serial 1⟩ :=
    ⟨⟨by decide, rfl, ⟨⟨.ofNat 1, "ann", true, Supply.serial 1⟩, by decide, rfl⟩, by decide⟩,
      by decide, by decide⟩
  obtain ⟨r, rfl⟩ := hcase.exists_ok hp rfl (by decide) hcid
  exact ⟨reachable_staffed, hs, r, t', s', hrun, hs', hcase, hread r rfl⟩

end Session.Rests

end ReviewRota
