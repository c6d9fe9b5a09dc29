import ReviewRota.Proofs.MergeRequests
import ReviewRota.Proofs.Replay
import ReviewRota.Proofs.SameContents

/-!
# Row locks put calls in order

What the lock on the row of a pull request does for merges and replacements that run next to each
other on one database: they come to what they come to one after the other, in an order in which each
row was given to them. So one of several merges merges and all of them answer with its time, and one
of several replacements of the same reviewer replaces him and the others are refused.
-/

namespace ReviewRota

open Sql

/-! ## Calls on tables -/

/-- The users who can take the place of a reviewer are the same. -/
theorem Tables.Untouched.substitutes {p : Identifier} {t t' : Tables} (h : t.Untouched p t')
    {pr : PullRequest} (hid : pr.id = p) (author : User) (old : Identifier) :
    t'.substitutes pr author old = t.substitutes pr author old := by
  have hreviewers : t'.reviewers.reviewersOf pr.id = t.reviewers.reviewersOf pr.id :=
    Pairs.reviewersOf_congr fun u => by rw [hid, h.reviewers]
  simp only [Tables.substitutes, Tables.usersOfTeam, h.users, hreviewers]

namespace Program

variable {w : World}

open Operation

/-- A merge leaves the tables as they are or puts its pull request in. -/
theorem tables_merge (hi : w.tables.Integrity) (id : Identifier) :
    ((merge id).on w).2.tables = w.tables ∨
      ∃ p, p.id = id ∧ ((merge id).on w).2.tables = w.tables.putPullRequest p := by
  cases h : w.tables.pullRequests.find? id with
  | none => exact Or.inl (by rw [on_merge_unknown h])
  | some p =>
    obtain rfl : p.id = id := hi.pullRequestKeys id p h
    cases hs : p.status with
    | merged => exact Or.inl (by rw [on_merge_merged h hs])
    | opened => exact Or.inr ⟨p.mergedOn _, rfl, by rw [on_merge_opened h hs]⟩

/-- A replacement leaves the tables as they are or puts another reviewer in the place of one. -/
theorem tables_reassign (hi : w.tables.Integrity) (id old : Identifier) (draws : Draws) :
    ((reassign id old draws).on w).2.tables = w.tables ∨
      ∃ new, ((reassign id old draws).on w).2.tables = w.tables.replaceReviewer id old new := by
  cases h : w.tables.pullRequests.find? id with
  | none => exact Or.inl (by rw [on_reassign_unknown h])
  | some p =>
    obtain rfl : p.id = id := hi.pullRequestKeys id p h
    cases hs : p.status with
    | merged => exact Or.inl (by rw [on_reassign_merged h hs])
    | opened =>
      by_cases hold : (p.id, old) ∈ w.tables.reviewers
      · obtain ⟨author, ha⟩ := hi.authors _ p h
        by_cases hnone : w.tables.substitutes p author old = []
        · exact Or.inl (by rw [on_reassign_noCandidate h hs hold ha hnone])
        · obtain ⟨new, hn, hdraw⟩ := Selection.exists_replacement hnone draws
          exact Or.inr ⟨new, by rw [on_reassign_replaced hi.unambiguous h hs hold ha hn hdraw]⟩
      · exact Or.inl (by rw [on_reassign_notAssigned h hs hold])

end Program

section OnTables

variable {k : Call} {t : Tables} {p q : Identifier}

/-- What a call answers and leaves is read off what its dialogue comes to. -/
theorem Call.answer_and_leaves_of_on {r : Except Failure k.command.Result} {w : World}
    (h : k.command.program.on ⟨t, k.supply⟩ = (r, w)) :
    (Task.command k).answer t = k.command.conclude r ∧
      (Task.command k).leaves t = if r.isOk then w.tables else t := by
  have hon : (Task.command k).program.on ⟨t, (Task.command k).supply⟩ = (r, w) := h
  rw [Task.answer, Task.leaves, Task.outcome, hon]
  exact ⟨rfl, rfl⟩

theorem Call.leaves_eq_or_after (k : Call) (t : Tables) :
    (Task.command k).leaves t = t ∨ (Task.command k).leaves t = k.after t := by
  unfold Task.leaves
  split
  · exact Or.inr rfl
  · exact Or.inl rfl

/-- What a call can leave: nothing new, another state of its pull request, or another reviewer of
it. -/
theorem Call.leaves_cases (handles : k.command.Handles q) (hi : t.Integrity) :
    (Task.command k).leaves t = t ∨
      (k.command = .merge q ∧ ∃ pr, pr.id = q ∧ (Task.command k).leaves t = t.putPullRequest pr) ∨
      ∃ old new, (Task.command k).leaves t = t.replaceReviewer q old new := by
  rcases leaves_eq_or_after k t with he | he
  · exact Or.inl he
  · rw [he]
    obtain ⟨c, supply⟩ := k
    cases c with
    | merge id =>
      obtain rfl : id = q := handles
      have hmerge := Program.tables_merge (w := ⟨t, supply⟩) hi id
      exact hmerge.imp_right fun h => Or.inl ⟨rfl, h⟩
    | reassign id old draws =>
      obtain rfl : id = q := handles
      have hreassign := Program.tables_reassign (w := ⟨t, supply⟩) hi id old draws
      exact hreassign.imp_right fun h => Or.inr ⟨old, h⟩
    | _ => exact handles.elim

/-- A call does not touch other pull requests. -/
theorem Call.untouched (handles : k.command.Handles q) (hi : t.Integrity) (hne : q ≠ p) :
    t.Untouched p ((Task.command k).leaves t) := by
  rcases leaves_cases handles hi with he | ⟨-, pr, rfl, he⟩ | ⟨old, new, he⟩
  · rw [he]
    exact .refl p t
  · rw [he]
    refine ⟨rfl, rfl, ?_, fun u => Iff.rfl⟩
    rw [Tables.find?_putPullRequest, if_neg hne.symm]
  · rw [he]
    refine ⟨rfl, rfl, rfl, fun u => ?_⟩
    simp [Tables.mem_replaceReviewer, hne.symm]

/-- Only merges of a pull request change its row. -/
theorem Call.find?_leaves (handles : k.command.Handles q) (hi : t.Integrity)
    (hk : k.command ≠ .merge p) :
    ((Task.command k).leaves t).pullRequests.find? p = t.pullRequests.find? p := by
  rcases leaves_cases handles hi with he | ⟨hmerge, pr, rfl, he⟩ | ⟨old, new, he⟩
  · rw [he]
  · have hne : p ≠ pr.id := by
      rintro rfl
      exact hk hmerge
    rw [he, Tables.find?_putPullRequest, if_neg hne]
  · rw [he]
    rfl

end OnTables

/-! ## Merges -/

/-- The time of the merge that a call answers with. -/
def Command.mergeTime? : (c : Command) → Except Failure c.Result → Option Instant
  | .merge _, .ok p => p.mergedAt
  | _, _ => none

namespace Sql.Exchange

variable {w : World} {p : PullRequest} {Q : Outcome PullRequest}

open Operation

theorem ensures_merge_opened (hp : w.tables.pullRequests.find? p.id = some p)
    (ho : p.status = .opened)
    (hQ : ∀ row, row.Shows (p.mergedOn w.supply.readClock.1).data →
      Q (.ok (p.mergedOn w.supply.readClock.1))
        ⟨w.tables.putPullRequest (p.mergedOn w.supply.readClock.1), w.supply.readClock.2⟩
        [.replace Schema.pullRequests row]) :
    Ensures Q ((merge p.id).refine perform) w [] := by
  have hopen : ¬ p.isMerged = true := by simp [PullRequest.isMerged, ho]
  refine ensures_pullRequest p.id true ?_
  rw [StoreCall.run_pullRequest hp]
  show Ensures Q (Dialogue.refine perform (if p.isMerged then _ else _)) w []
  rw [if_neg hopen]
  exact ensures_setMerged hp ho hQ

theorem ensures_merge_merged (hp : w.tables.pullRequests.find? p.id = some p)
    (hm : p.status = .merged) (hQ : Q (.ok p) w []) :
    Ensures Q ((merge p.id).refine perform) w [] := by
  have hmerged : p.isMerged = true := by simp [PullRequest.isMerged, hm]
  refine ensures_pullRequest p.id true ?_
  rw [StoreCall.run_pullRequest hp]
  show Ensures Q (Dialogue.refine perform (if p.isMerged then _ else _)) w []
  rw [if_pos hmerged]
  exact hQ

end Sql.Exchange

section Merging

variable {k : Call} {t : Tables} {d : Contents} {p : PullRequest}
  {r : Except Failure k.command.Result} {supply : Supply} {ws : List Write}

/-- A merge of an open pull request updates its row. -/
theorem Call.merge_of_opened (hk : k.command = .merge p.id) (held : d.Holds t)
    (hp : t.pullRequests.find? p.id = some p) (ho : p.status = .opened)
    (alone : Exchange.Reaches d k.started (.ended r supply ws)) :
    (Task.command k).leaves t = t.putPullRequest (p.mergedOn k.reading) ∧
      k.command.mergeTime? (k.command.conclude r) = some k.reading ∧
      ∃ row, row.Shows (p.mergedOn k.reading).data ∧
        kept r ws = [.replace Schema.pullRequests row] := by
  obtain ⟨c, handed⟩ := k
  obtain rfl : c = .merge p.id := hk
  have hstart : Exchange.Progress.Ensures d (fun r _ ws => r = .ok (p.mergedOn handed.readClock.1) ∧
      ∃ row, row.Shows (p.mergedOn handed.readClock.1).data ∧
        ws = [.replace Schema.pullRequests row]) (Call.started ⟨.merge p.id, handed⟩) :=
    ⟨t, held, Exchange.ensures_merge_opened (w := ⟨t, handed⟩) hp ho
      fun row hrow => ⟨rfl, row, hrow, rfl⟩⟩
  obtain ⟨-, -, rfl, row, hrow, rfl⟩ := (hstart.reach alone).end
  refine ⟨?_, rfl, row, hrow, rfl⟩
  exact (Call.answer_and_leaves_of_on (k := ⟨.merge p.id, handed⟩)
    (Program.on_merge_opened hp ho)).2

/-- A merge of a merged pull request writes nothing. -/
theorem Call.merge_of_merged (hk : k.command = .merge p.id) (held : d.Holds t)
    (hp : t.pullRequests.find? p.id = some p) (hm : p.status = .merged) {time : Instant}
    (htime : p.mergedAt = some time)
    (alone : Exchange.Reaches d k.started (.ended r supply ws)) :
    (Task.command k).leaves t = t ∧
      k.command.mergeTime? (k.command.conclude r) = some time ∧ kept r ws = [] := by
  obtain ⟨c, handed⟩ := k
  obtain rfl : c = .merge p.id := hk
  have hstart : Exchange.Progress.Ensures d (fun r _ ws => r = .ok p ∧ ws = [])
      (Call.started ⟨.merge p.id, handed⟩) :=
    ⟨t, held, Exchange.ensures_merge_merged (w := ⟨t, handed⟩) hp hm ⟨rfl, rfl⟩⟩
  obtain ⟨-, -, rfl, rfl⟩ := (hstart.reach alone).end
  refine ⟨?_, ?_, rfl⟩
  · exact (Call.answer_and_leaves_of_on (k := ⟨.merge p.id, handed⟩)
      (Program.on_merge_merged hp hm)).2
  · show Command.mergeTime? (.merge p.id) ((Operation.pullRequestMerged p.id p).map fun _ => p) = _
    rw [Operation.pullRequestMerged, htime]
    exact htime

end Merging

section Once

variable {ι : Type} {calls : ι → Call} {target : ι → Identifier} {t : Tables} {d d' : Contents}
  {es : List (Entry calls)} {e : Entry calls} {time : Instant}

/-- The transaction of a call has made a pull request a merged one. -/
def Entry.Merges (p : Identifier) (e : Entry calls) : Prop :=
  ∃ row, .replace Schema.pullRequests row ∈ e.writes ∧ row.value Schema.id.name = .id p ∧
    row.value Schema.status.name = .status .merged

/-- All merges of a pull request answer with one time, and just one of them has merged it. -/
structure MergedAt (p : Identifier) (time : Instant) (es : List (Entry calls)) : Prop where
  times : ∀ e ∈ es, (calls e.call).command = .merge p →
    (calls e.call).command.mergeTime? e.answer = some time
  once : ∃ e ∈ es, (calls e.call).command = .merge p ∧ e.Merges p ∧
    ∀ e' ∈ es, (calls e'.call).command = .merge p → e'.Merges p → e' = e

/-- The first merge of a pull request merges it. -/
theorem mergedAt_concat {p : Identifier} (hes : ∀ e ∈ es, (calls e.call).command ≠ .merge p)
    (hmerge : (calls e.call).command = .merge p)
    (htime : (calls e.call).command.mergeTime? e.answer = some time) (he : e.Merges p) :
    MergedAt p time (es ++ [e]) where
  times := by
    intro e' he' hmerge'
    rcases List.mem_append.mp he' with he' | he'
    · exact absurd hmerge' (hes e' he')
    · rwa [List.mem_singleton.mp he']
  once := by
    refine ⟨e, List.mem_append_right es (.head _), hmerge, he, fun e' he' hmerge' _ => ?_⟩
    rcases List.mem_append.mp he' with he' | he'
    · exact absurd hmerge' (hes e' he')
    · exact List.mem_singleton.mp he'

/-- Later merges answer with the same time and merge nothing. -/
theorem MergedAt.concat {p : Identifier} (h : MergedAt p time es)
    (htime : (calls e.call).command = .merge p →
      (calls e.call).command.mergeTime? e.answer = some time ∧ ¬ e.Merges p) :
    MergedAt p time (es ++ [e]) where
  times := by
    intro e' he' hmerge
    rcases List.mem_append.mp he' with he' | he'
    · exact h.times e' he' hmerge
    · obtain rfl := List.mem_singleton.mp he'
      exact (htime hmerge).1
  once := by
    obtain ⟨e₀, he₀, hmerge₀, hmerges₀, honly⟩ := h.once
    refine ⟨e₀, List.mem_append_left [e] he₀, hmerge₀, hmerges₀, fun e' he' hmerge hmerges => ?_⟩
    rcases List.mem_append.mp he' with he' | he'
    · exact honly e' he' hmerge hmerges
    · obtain rfl := List.mem_singleton.mp he'
      exact absurd hmerges (htime hmerge).2

theorem not_merges_of_writes_nil {p : Identifier} (h : e.writes = []) : ¬ e.Merges p := by
  rintro ⟨row, hrow, -⟩
  rw [h] at hrow
  exact absurd hrow List.not_mem_nil

variable (h : Serial calls d es d') (handles : ∀ i, (calls i).command.Handles (target i))
  (hi : t.Integrity) (held : d.Holds t)

include h handles hi held

/-- Serial merges of a pull request that is open at first: it is open until the first one. -/
theorem Serial.exists_mergedAt {p : PullRequest} (hp : t.pullRequests.find? p.id = some p)
    (ho : p.status = .opened) (hsome : ∃ e ∈ es, (calls e.call).command = .merge p.id) :
    ∃ time, MergedAt p.id time es := by
  have hturns := h.holds_and (Q := fun es t' =>
    (t'.pullRequests.find? p.id = some p ∧ ∀ e ∈ es, (calls e.call).command ≠ .merge p.id) ∨
      ∃ time, t'.pullRequests.find? p.id = some (p.mergedOn time) ∧ MergedAt p.id time es)
    handles hi held (Or.inl ⟨hp, fun e he => absurd he List.not_mem_nil⟩) ?_
  · rcases hturns.2.2 with ⟨-, hnone⟩ | ⟨time, -, hmerged⟩
    · obtain ⟨e, he, hmerge⟩ := hsome
      exact absurd hmerge (hnone e he)
    · exact ⟨time, hmerged⟩
  · intro es t' d' i r supply ws hi' held' hturn alone hr
    by_cases hmerge : (calls i).command = .merge p.id
    -- the first merge finds it open, every later one merged
    · rcases hturn with ⟨hp', hnone⟩ | ⟨time, hp', hmerged⟩
      · obtain ⟨hleaves, htime, row, hrow, hkept⟩ :=
          Call.merge_of_opened hmerge held' hp' ho alone
        refine Or.inr ⟨(calls i).reading, ?_, mergedAt_concat hnone hmerge htime ⟨row, ?_, ?_, ?_⟩⟩
        · rw [hleaves, Tables.find?_putPullRequest]
          exact if_pos rfl
        · exact hkept ▸ List.mem_singleton_self _
        · exact hrow.pullRequest_id
        · exact hrow _ (.tail _ (.tail _ (.tail _ (.head _))))
      · obtain ⟨hleaves, htime, hkept⟩ :=
          Call.merge_of_merged (p := p.mergedOn time) hmerge held' hp' rfl rfl alone
        rw [hleaves]
        exact Or.inr
          ⟨time, hp', hmerged.concat fun _ => ⟨htime, not_merges_of_writes_nil hkept⟩⟩
    · have hkeep := Call.find?_leaves (handles i) hi' hmerge
      rw [hkeep]
      refine hturn.imp ?_ ?_
      · rintro ⟨hp', hnone⟩
        refine ⟨hp', fun e he => ?_⟩
        rcases List.mem_append.mp he with he | he
        · exact hnone e he
        · rwa [List.mem_singleton.mp he]
      · rintro ⟨time, hp', hmerged⟩
        exact ⟨time, hp', hmerged.concat fun he => absurd he hmerge⟩

end Once

/-! ## Replacements of one reviewer -/

section Replacing

variable {k : Call} {t : Tables} {p : PullRequest} {old : Identifier} {draws : Draws}

/-- A reviewer who is assigned is replaced, and is no reviewer any more. -/
theorem Call.reassign_of_assigned (hk : k.command = .reassign p.id old draws) (hi : t.Integrity)
    (hp : t.pullRequests.find? p.id = some p) (ho : p.status = .opened)
    (hold : (p.id, old) ∈ t.reviewers) {author : User}
    (ha : t.users.find? p.authorId = some author) (hsome : t.substitutes p author old ≠ []) :
    ((Task.command k).answer t).isOk = true ∧
      ((Task.command k).leaves t).pullRequests.find? p.id = some p ∧
      (p.id, old) ∉ ((Task.command k).leaves t).reviewers := by
  obtain ⟨c, supply⟩ := k
  obtain rfl : c = .reassign p.id old draws := hk
  obtain ⟨new, hn, hdraw⟩ := Selection.exists_replacement hsome draws
  have hon : (Command.reassign p.id old draws).program.on ⟨t, supply⟩ = _ :=
    Program.on_reassign_replaced (w := ⟨t, supply⟩) hi.unambiguous hp ho hold ha hn hdraw
  obtain ⟨hanswer, hleaves⟩ :=
    Call.answer_and_leaves_of_on (k := ⟨.reassign p.id old draws, supply⟩) hon
  replace hleaves : _ = t.replaceReviewer p.id old new := hleaves
  obtain ⟨-, hne, -, -⟩ := hi.unambiguous.of_mem_substitutes hn
  rw [hanswer, hleaves]
  refine ⟨?_, ?_, ?_⟩
  · rfl
  · exact hp
  intro hm
  rw [Tables.mem_replaceReviewer] at hm
  rcases hm with ⟨-, he⟩ | ⟨he, -⟩
  · exact hne he.symm
  · exact he rfl rfl

/-- Nobody is put in the place of a user who is no reviewer. -/
theorem Call.reassign_of_unassigned (hk : k.command = .reassign p.id old draws)
    (hp : t.pullRequests.find? p.id = some p) (ho : p.status = .opened)
    (hold : (p.id, old) ∉ t.reviewers) :
    (Task.command k).answer t = .error (.about .reviewerNotAssigned old) ∧
      (Task.command k).leaves t = t := by
  obtain ⟨c, supply⟩ := k
  obtain rfl : c = .reassign p.id old draws := hk
  exact Call.answer_and_leaves_of_on (k := ⟨.reassign p.id old draws, supply⟩)
    (Program.on_reassign_notAssigned hp ho hold draws)

variable {ι : Type} {calls : ι → Call} {target : ι → Identifier} {d d' : Contents}
  {es : List (Entry calls)}

/-- Of the calls about a pull request one goes well, and all others are refused because a user is not
a reviewer. -/
def ReplacedOnce (target : ι → Identifier) (p old : Identifier) (es : List (Entry calls)) : Prop :=
  ∃ e ∈ es, target e.call = p ∧ e.answer.isOk = true ∧
    ∀ e' ∈ es, target e'.call = p → e' = e ∨ e'.answer = .error (.about .reviewerNotAssigned old)

/-- Serial replacements of one reviewer of an open pull request: he is a reviewer until the first
one. -/
theorem Serial.replacedOnce (h : Serial calls d es d')
    (handles : ∀ i, (calls i).command.Handles (target i)) (hi : t.Integrity) (held : d.Holds t)
    (hp : t.pullRequests.find? p.id = some p) (ho : p.status = .opened)
    (hold : (p.id, old) ∈ t.reviewers) {author : User}
    (ha : t.users.find? p.authorId = some author) (hpool : t.substitutes p author old ≠ [])
    (hall : ∀ i, target i = p.id → ∃ draws, (calls i).command = .reassign p.id old draws)
    (hsome : ∃ e ∈ es, target e.call = p.id) : ReplacedOnce target p.id old es := by
  have hturns := h.holds_and (Q := fun es t' =>
    (t.Untouched p.id t' ∧ ∀ e ∈ es, target e.call ≠ p.id) ∨
      (t'.pullRequests.find? p.id = some p ∧ (p.id, old) ∉ t'.reviewers ∧
        ReplacedOnce target p.id old es))
    handles hi held (Or.inl ⟨.refl p.id t, fun e he => absurd he List.not_mem_nil⟩) ?_
  · rcases hturns.2.2 with ⟨-, hnone⟩ | ⟨-, -, honce⟩
    · obtain ⟨e, he, htarget⟩ := hsome
      exact absurd htarget (hnone e he)
    · exact honce
  · intro es t' d' i r supply ws hi' held' hturn alone hr
    have hanswer : (calls i).command.conclude r = (Task.command (calls i)).answer t' := by
      rw [hr]
      rfl
    rw [hanswer]
    -- a call about another pull request leaves both sides of the invariant as they are
    by_cases htarget : target i = p.id
    · obtain ⟨draws, hk⟩ := hall i htarget
      refine Or.inr ?_
      -- the first of them finds him assigned, every later one does not
      rcases hturn with ⟨huntouched, hnone⟩ | ⟨hp', hold', e, he, htarget₀, hwell, hothers⟩
      · have hp' := huntouched.pullRequest.trans hp
        have ha' : t'.users.find? p.authorId = some author := by rwa [huntouched.users]
        rw [← huntouched.substitutes rfl] at hpool
        obtain ⟨hok, hkept, hgone⟩ := Call.reassign_of_assigned hk hi' hp' ho
          ((huntouched.reviewers old).mpr hold) ha' hpool
        refine ⟨hkept, hgone, _, List.mem_append_right es (.head _), htarget, hok, ?_⟩
        intro e' he' htarget'
        rcases List.mem_append.mp he' with he' | he'
        · exact absurd htarget' (hnone e' he')
        · exact Or.inl (List.mem_singleton.mp he')
      · obtain ⟨hrefused, hleaves⟩ := Call.reassign_of_unassigned hk hp' ho hold'
        rw [hleaves]
        refine ⟨hp', hold', e, List.mem_append_left _ he, htarget₀, hwell, fun e' he' htarget' => ?_⟩
        rcases List.mem_append.mp he' with he' | he'
        · exact hothers e' he' htarget'
        · obtain rfl := List.mem_singleton.mp he'
          exact Or.inr hrefused
    · have hstep := Call.untouched (handles i) hi' htarget
      refine hturn.imp ?_ ?_
      · rintro ⟨huntouched, hnone⟩
        refine ⟨huntouched.trans hstep, fun e he => ?_⟩
        rcases List.mem_append.mp he with he | he
        · exact hnone e he
        · rwa [List.mem_singleton.mp he]
      · rintro ⟨hp', hold', e, he, htarget₀, hwell, hothers⟩
        refine ⟨hstep.pullRequest.trans hp', fun hm => hold' ((hstep.reviewers old).mp hm), e,
          List.mem_append_left _ he, htarget₀, hwell, fun e' he' htarget' => ?_⟩
        rcases List.mem_append.mp he' with he' | he'
        · exact hothers e' he' htarget'
        · obtain rfl := List.mem_singleton.mp he'
          exact absurd htarget' htarget

end Replacing

/-! ## The main statement -/

namespace Contention

variable {ι : Type} [DecidableEq ι] {calls : ι → Call} {target : ι → Identifier} {name : String}
  {ks : List Call} {t : Tables} {d : Contents} {s : Contention calls}

/-- The calls that are over have come to what they come to one after the other in the order of their
ends: on the database, where each of them can be made again alone, and on the tables that it holds.
Each was given the row of its pull request, and whoever was given a row earlier comes earlier. -/
structure InTurn (target : ι → Identifier) (t : Tables) (d : Contents) (s : Contention calls) :
    Prop where
  once : s.order.Nodup
  returned : ∀ i, i ∈ s.order ↔ s.stage i = .returned
  serial : Serial calls d s.finished s.contents
  answers : s.finished.map Entry.answered = Task.answerAll (Call.tasks calls) s.order t
  contents : s.contents.Holds (Task.leaveAll (Call.tasks calls) s.order t)
  given : ∀ i ∈ s.order, i ∈ s.granted (.pullRequest (target i))
  compatible : ∀ k, ((s.granted k).filter (· ∈ s.order)).Sublist s.order

theorem Sound.inTurn (h : s.Sound target d)
    (handles : ∀ i, (calls i).command.Handles (target i)) (hi : t.Integrity) (held : d.Holds t) :
    s.InTurn target t d where
  once := h.distinct
  returned := h.returned
  serial := h.serial
  answers := h.serial.answers handles hi held
  contents := h.serial.holds handles hi held
  given := h.locked
  compatible := by
    intro k
    rcases h.queue k with hsub | ⟨past, j, hgranted, hsub, hj⟩
    · exact List.filter_sublist.trans hsub
    · have hout : j ∉ s.order := fun hm => hj ((h.returned j).mp hm)
      rw [hgranted, List.filter_append, List.filter_singleton]
      simp only [hout, decide_false, cond_false, List.append_nil]
      exact List.filter_sublist.trans hsub

/-- **Row locks put merges and replacements in order.** However the scheduler switches between the
statements of such calls, those that are over have come to what they come to one after the other, in
an order in which each row was given to them. Of the merges of a pull request that is open at first
one merges it, and all answer with its time; if the only calls about an open pull request replace
the same reviewer and somebody can take his place, one of them replaces him and the others are
refused because he is not a reviewer. And no call is ever kept from its end. -/
theorem serial_by_row_locks (past : History name .empty ks t) (held : d.Holds t)
    (handles : ∀ i, (calls i).command.Handles (target i))
    (stored : ∀ i, ∃ p, t.pullRequests.find? (target i) = some p)
    (hs : (opening calls d).Leads s) :
    s.InTurn target t d ∧
    (∀ p : PullRequest, t.pullRequests.find? p.id = some p → p.status = .opened →
      (∃ i ∈ s.order, (calls i).command = .merge p.id) →
        ∃ time, MergedAt p.id time s.finished) ∧
    (∀ (p : PullRequest) (old : Identifier) (author : User),
      t.pullRequests.find? p.id = some p → p.status = .opened → (p.id, old) ∈ t.reviewers →
      t.users.find? p.authorId = some author → t.substitutes p author old ≠ [] →
      (∀ i, target i = p.id → ∃ draws, (calls i).command = .reassign p.id old draws) →
      (∃ i ∈ s.order, target i = p.id) → ReplacedOnce target p.id old s.finished) ∧
    ∀ is : List ι, ∃ s', s.Leads s' ∧ ∀ i ∈ is, s'.stage i = .returned := by
  have hi := past.integrity Tables.integrity_empty
  have h := (sound_opening (d := d) handles).leads handles hi held stored hs
  have hentry : ∀ {P : ι → Prop}, (∃ i ∈ s.order, P i) → ∃ e ∈ s.finished, P e.call := by
    rintro P ⟨i, hmem, hP⟩
    obtain ⟨e, he, rfl⟩ := List.mem_map.mp hmem
    exact ⟨e, he, hP⟩
  refine ⟨h.inTurn handles hi held, ?_, ?_, h.exists_all_returned handles hi held stored⟩
  · intro p hp ho hsome
    exact h.serial.exists_mergedAt handles hi held hp ho (hentry hsome)
  · intro p old author hp ho hold ha hpool hall hsome
    exact h.serial.replacedOnce handles hi held hp ho hold ha hpool hall (hentry hsome)

/-- Two merges of the pull request with the number 7. -/
def rush : Fin 2 → Call := fun _ => .merging (.ofNat 7) default

theorem serial_by_row_locks_rush : ∃ (t : Tables) (d : Contents) (s : Contention rush),
    d.Holds t ∧ (opening rush d).Leads s ∧ (∀ i, s.stage i = .returned) ∧
      s.InTurn (fun _ => .ofNat 7) t d ∧ ∃ time, MergedAt (.ofNat 7) time s.finished := by
  have past : History "rota" .empty [Call.founding, Call.opening] _ :=
    (History.history_founding "rota").extend History.integrity_founding rfl
  have hi := past.integrity Tables.integrity_empty
  obtain ⟨-, p, -, hp⟩ := History.exists_opening
  have hid : p.id = .ofNat 7 := hi.pullRequestKeys _ p hp
  have ho : p.status = .opened := by
    have hnew : (Call.founding.after .empty).pullRequests.find? (.ofNat 7) = none := rfl
    have hproper : Call.opening.Proper (Call.founding.after .empty) := rfl
    rcases Call.after_eq_or_change History.integrity_founding hproper with he | hc
    · rw [he, hnew] at hp
      cases hp
    · rcases hc.origin hp with hold | ⟨-, hopened⟩ | ⟨q, hold, -⟩
      · cases hnew.symm.trans hold
      · exact hopened
      · cases hnew.symm.trans hold
  have held := Tables.holds_stored hi.sound
  have handles : ∀ i, (rush i).command.Handles (.ofNat 7) := fun _ => rfl
  have stored : Fin 2 → ∃ p, (Call.opening.after
      (Call.founding.after .empty)).pullRequests.find? (.ofNat 7) = some p := fun _ => ⟨p, hp⟩
  obtain ⟨-, -, -, hend⟩ := serial_by_row_locks past held handles stored .refl
  obtain ⟨s, hs, hdone⟩ := hend (List.finRange 2)
  obtain ⟨hturn, hmerges, -⟩ := serial_by_row_locks past held handles stored hs
  rw [← hid] at hp
  have hmerged := hmerges p hp ho ⟨0, (hturn.returned 0).mpr (hdone 0 (List.mem_finRange 0)), by
    rw [hid]
    rfl⟩
  rw [hid] at hmerged
  exact ⟨_, _, s, held, hs, fun i => hdone i (List.mem_finRange i), hturn, hmerged⟩

end Contention

end ReviewRota
