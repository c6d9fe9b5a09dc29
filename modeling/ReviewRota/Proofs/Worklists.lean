import Mathlib.Data.List.Sort
import ReviewRota.Proofs.Lifecycle
import ReviewRota.Proofs.Reassignment
import ReviewRota.Proofs.Telling

/-!
# Lists of reviews

What a user is told about the pull requests that he reviews, next to what everybody is told about the
reviewers of each pull request. The two are views of one relation, but one of them is joined with the
pull requests and put in order: nothing gets lost on the way because pairs never dangle, and there is
just one such list because identifiers decide between pull requests of one instant. A replacement
moves a pull request from one list to another.
-/

namespace ReviewRota

namespace PullRequest

/-- The order of creation, with identifiers to tell pull requests of one instant apart. -/
def Precedes (p q : PullRequest) : Prop :=
  p.createdAt.universal < q.createdAt.universal ∨
    (p.createdAt.universal = q.createdAt.universal ∧ p.id.toNat < q.id.toNat)

instance : Std.Irrefl Precedes := ⟨fun p h => by unfold Precedes at h; omega⟩

instance : Std.Antisymm Precedes := ⟨fun p q hpq hqp => by unfold Precedes at hpq hqp; omega⟩

/-- Sorting puts pull requests that differ in their identifiers in this order. -/
theorem mergeSort_precedes {ps : List PullRequest} (distinct : ps.Nodup)
    (ids : ∀ p ∈ ps, ∀ q ∈ ps, p.id = q.id → p = q) :
    (ps.mergeSort createdBefore).Pairwise Precedes := by
  have hsorted : (ps.mergeSort createdBefore).Pairwise fun p q => p.createdBefore q = true :=
    List.pairwise_mergeSort createdBefore_trans createdBefore_total ps
  have hdistinct := (List.mergeSort_perm ps createdBefore).nodup_iff.mpr distinct
  refine (hsorted.and hdistinct).imp_of_mem ?_
  rintro p q hp hq ⟨hle, hne⟩
  have hid : p.id.toNat ≠ q.id.toNat := fun he =>
    hne (ids p (List.mem_mergeSort.mp hp) q (List.mem_mergeSort.mp hq) (Identifier.toNat_injective he))
  rw [createdBefore_iff] at hle
  unfold Precedes
  omega

end PullRequest

namespace Tables

/-- The pull requests that a user reviews, as they are stored, in the order of their creation. -/
structure Worklist (t : Tables) (userId : Identifier) (prs : List PullRequest) : Prop where
  mem : ∀ p, p ∈ prs ↔ t.pullRequests.find? p.id = some p ∧ (p.id, userId) ∈ t.reviewers
  rising : prs.Pairwise PullRequest.Precedes

variable {t t' : Tables} {userId : Identifier} {prs prs' : List PullRequest}

/-- Every user has such a list, and it is what he is told in short form. -/
theorem Unambiguous.exists_worklist (h : t.Unambiguous) (dated : t.Datable) (userId : Identifier) :
    ∃ prs, t.Worklist userId prs ∧
      Operation.summaries ((t.reviewers.reviewedBy userId).filterMap t.pullRequests.find?) =
        .ok (prs.map .of) := by
  have hnodup := h.nodup_named (Pairs.nodup_reviewedBy userId t.reviewers)
  have hnamed : ∀ p, p ∈ (t.reviewers.reviewedBy userId).filterMap t.pullRequests.find? ↔
      t.pullRequests.find? p.id = some p ∧ (p.id, userId) ∈ t.reviewers := by
    intro p
    rw [h.mem_named, Pairs.mem_reviewedBy]
  have horder := dated.haveOrder (t.reviewers.reviewedBy userId)
  have hid : ∀ p ∈ (t.reviewers.reviewedBy userId).filterMap t.pullRequests.find?,
      ∀ q ∈ (t.reviewers.reviewedBy userId).filterMap t.pullRequests.find?, p.id = q.id → p = q :=
    fun p hp q hq => h.pullRequest_unique hp hq
  generalize (t.reviewers.reviewedBy userId).filterMap t.pullRequests.find? = named at *
  refine ⟨named.mergeSort PullRequest.createdBefore,
    ⟨?_, PullRequest.mergeSort_precedes hnodup hid⟩, if_pos horder⟩
  intro p
  rw [List.mem_mergeSort, hnamed]

namespace Worklist

/-- There are no two lists of the same pull requests. -/
theorem eq_of_mem_iff (h : t.Worklist userId prs) {userId' : Identifier}
    (h' : t'.Worklist userId' prs') (same : ∀ p, p ∈ prs ↔ p ∈ prs') : prs = prs' :=
  h.rising.eq_of_mem_iff h'.rising same

/-- The list holds the short form of a pull request as often as the user is one of its reviewers. -/
theorem count_of (h : t.Worklist userId prs) {p : PullRequest}
    (stored : t.pullRequests.find? p.id = some p) :
    (prs.map PullRequestSummary.of).count (.of p) = if (p.id, userId) ∈ t.reviewers then 1 else 0 := by
  have hid : ∀ q ∈ prs, ∀ r ∈ prs, PullRequestSummary.of q = .of r → q = r := by
    intro q hq r hr he
    have hsame : q.id = r.id := congrArg PullRequestSummary.id he
    exact Ledger.eq_of_find? ((h.mem q).mp hq).1 ((h.mem r).mp hr).1 hsame
  have hnodup := h.rising.nodup.map_on hid
  have hmem : PullRequestSummary.of p ∈ prs.map PullRequestSummary.of ↔
      (p.id, userId) ∈ t.reviewers := by
    rw [List.mem_map]
    constructor
    · rintro ⟨q, hq, he⟩
      have hsame : q.id = p.id := congrArg PullRequestSummary.id he
      exact hsame ▸ ((h.mem q).mp hq).2
    · exact fun hreviews => ⟨p, (h.mem p).mpr ⟨stored, hreviews⟩, rfl⟩
  rw [hnodup.count]
  simp only [hmem]

/-- When only the pairs of one pull request are different, and the user does not review it any more,
it is taken out of the list. -/
theorem eq_filter (h : t.Worklist userId prs) (h' : t'.Worklist userId prs')
    (same : t'.pullRequests = t.pullRequests) {id : Identifier} (gone : (id, userId) ∉ t'.reviewers)
    (others : ∀ k, k ≠ id → ((k, userId) ∈ t'.reviewers ↔ (k, userId) ∈ t.reviewers)) :
    prs' = prs.filter fun p => p.id ≠ id := by
  refine h'.rising.eq_of_mem_iff (h.rising.filter _) fun p => ?_
  rw [List.mem_filter, h'.mem, h.mem, same, decide_eq_true_eq]
  constructor
  · rintro ⟨hp, hreviews⟩
    have hne : p.id ≠ id := by
      rintro rfl
      exact gone hreviews
    exact ⟨⟨hp, (others p.id hne).mp hreviews⟩, hne⟩
  · rintro ⟨⟨hp, hreviews⟩, hne⟩
    exact ⟨hp, (others p.id hne).mpr hreviews⟩

end Worklist

end Tables

/-! ## Replacements -/

/-- How the list of a user changes when one reviewer of a pull request comes for another: the one who
leaves loses the pull request, the one who comes gets it, and the lists of others stay. -/
structure PullRequest.HandedOver (p : PullRequest) (old new userId : Identifier)
    (prs prs' : List PullRequest) : Prop where
  left : userId = old → p ∈ prs ∧ prs' = prs.filter fun q => q.id ≠ p.id
  joined : userId = new → p ∈ prs' ∧ prs = prs'.filter fun q => q.id ≠ p.id
  others : userId ≠ old → userId ≠ new → prs' = prs

theorem Tables.Replaced.handedOver {t t' : Tables} {p : PullRequest} {old new userId : Identifier}
    {prs prs' : List PullRequest} (h : t.Replaced p.id old new t')
    (known : t.pullRequests.find? p.id = some p) (assigned : (p.id, old) ∈ t.reviewers)
    (free : (p.id, new) ∉ t.reviewers) (before : t.Worklist userId prs)
    (after : t'.Worklist userId prs') : p.HandedOver old new userId prs prs' where
  left := by
    rintro rfl
    -- the one who leaves was a reviewer, and the one who comes was not
    have hne : userId ≠ new := by
      rintro rfl
      exact free assigned
    refine ⟨(before.mem p).mpr ⟨known, assigned⟩, before.eq_filter after h.pullRequests ?_ ?_⟩
    · rw [h.reviewers]
      rintro (he | ⟨hself, -⟩)
      · exact hne he
      · exact hself rfl
    · exact fun k hk => h.others k userId hk
  joined := by
    rintro rfl
    have hnow : (p.id, userId) ∈ t'.reviewers := (h.reviewers userId).mpr (Or.inl rfl)
    refine ⟨(after.mem p).mpr ⟨h.pullRequests ▸ known, hnow⟩,
      after.eq_filter before h.pullRequests.symm free ?_⟩
    exact fun k hk => (h.others k userId hk).symm
  others hold hnew := by
    refine after.eq_of_mem_iff before fun q => ?_
    rw [after.mem, before.mem, h.pullRequests]
    refine and_congr_right fun _ => ?_
    by_cases hq : q.id = p.id
    · rw [hq, h.reviewers]
      simp [hold, hnew]
    · exact h.others q.id userId hq

/-! ## Histories -/

/-- One clock is behind all calls: it tells its offset always or never. -/
def Call.OneClock (ks : List Call) : Prop :=
  ∀ j ∈ ks, ∀ k ∈ ks, j.reading.comparable k.reading = true

theorem History.datable {name : String} {ks : List Call} {t : Tables} (h : History name .empty ks t)
    (clock : Call.OneClock ks) : t.Datable := by
  intro j k p q hp hq
  obtain ⟨c, hc, hcreated⟩ := h.exists_reading hp
  obtain ⟨c', hc', hcreated'⟩ := h.exists_reading hq
  rw [hcreated, hcreated']
  exact clock c hc c' hc'

/-- The inactive one of the team becomes active. -/
def Call.returning : Call := ⟨.setActive (.ofNat 3) true, default⟩

/-- The first of the team opens another pull request, dated by a clock that tells its offset. -/
def Call.reopening : Call :=
  ⟨.openPullRequest (.ofNat 8) "docs" (.ofNat 1) [] usualReviewers, ⟨⟨0, some 0⟩, 1, [], 0⟩⟩

open Call (founding opening returning reopening)

/-- One of the team has opened a pull request, which another one reviews; the third could do so too. -/
def Tables.attended : Tables :=
  ((founding.after .empty).addPullRequest
    (.opening (.ofNat 7) "fix" (.ofNat 1) (Supply.readClock default).1) [.ofNat 2]).putUser
      ⟨.ofNat 3, "cid", true, Supply.serial 1⟩

open Tables (pool usersOfTeam_founding) in
/-- As long as the users of the team are those of its creation, whatever the first of them opens is
reviewed by the second. -/
theorem Call.after_openPullRequest {t : Tables} (hi : t.Integrity)
    (husers : t.users = (founding.after .empty).users) {id : Identifier}
    (hfree : t.pullRequests.find? id = none) (title : String) (supply : Supply) :
    Call.after ⟨.openPullRequest id title (.ofNat 1) [] usualReviewers, supply⟩ t =
      t.addPullRequest (.opening id title (.ofNat 1) supply.readClock.1) [.ofNat 2] := by
  have hann : t.users.find? (User.mk (.ofNat 1) "ann" true (Supply.serial 1)).id =
      some ⟨.ofNat 1, "ann", true, Supply.serial 1⟩ := by
    rw [husers]
    decide
  have hteam : t.usersOfTeam (Supply.serial 1) = (founding.after .empty).usersOfTeam (Supply.serial 1) := by
    rw [Tables.usersOfTeam, Tables.usersOfTeam, husers]
  have hpool : t.pool ⟨.ofNat 1, "ann", true, Supply.serial 1⟩ = [.ofNat 2] := by
    rw [pool, hteam, usersOfTeam_founding]
    decide
  have hopen := Program.on_openPullRequest_new (w := ⟨t, supply⟩) hi.coherent hann hfree title []
    usualReviewers
  rw [hpool] at hopen
  exact congrArg (fun o => o.2.tables) hopen

theorem Call.after_opening : opening.after (founding.after .empty) =
    (founding.after .empty).addPullRequest
      (.opening (.ofNat 7) "fix" (.ofNat 1) (Supply.readClock default).1) [.ofNat 2] :=
  after_openPullRequest History.integrity_founding rfl rfl "fix" default

theorem Call.after_returning :
    returning.after (opening.after (founding.after .empty)) = .attended := by
  have hcid : (opening.after (founding.after .empty)).users.find?
      (User.mk (.ofNat 3) "cid" false (Supply.serial 1)).id =
        some ⟨.ofNat 3, "cid", false, Supply.serial 1⟩ := by
    rw [after_opening]
    decide
  have hcore : (opening.after (founding.after .empty)).teams.find? (Supply.serial 1) =
      some ⟨Supply.serial 1, "core"⟩ := by
    rw [after_opening]
    decide
  have hreturn := Program.on_setActive_known
    (w := ⟨opening.after (founding.after .empty), default⟩) hcid hcore true
  refine (congrArg (fun o => o.2.tables) hreturn).trans ?_
  rw [after_opening]
  rfl

theorem History.history_attended (name : String) :
    History name .empty [founding, opening, returning] .attended := by
  have past : History name .empty [founding, opening] _ :=
    (history_founding name).extend integrity_founding rfl
  have hall := past.extend (k := returning) (past.integrity Tables.integrity_empty) trivial
  rwa [Call.after_returning] at hall

/-! ## What is told -/

namespace Session

/-- What a user is told about his reviews mirrors what is told about the reviewers of the stored pull
requests. -/
structure Mirrors (name : String) (s : Session) (t : Tables) (userId : Identifier)
    (prs : List PullRequest) : Prop where
  told : s.Tells name (.assignedReviews userId) (.ok (prs.map .of))
  /-- A pull request is there once for a reviewer and not at all for anybody else. -/
  listed : ∀ id p, t.pullRequests.find? id = some p →
    ∃ reviewers, s.Tells name (.review id) (.ok ⟨p, reviewers⟩) ∧
      (prs.map PullRequestSummary.of).count (.of p) = if userId ∈ reviewers then 1 else 0
  /-- Everything in the list is there as it is now. -/
  current : ∀ p ∈ prs, t.pullRequests.find? p.id = some p
  /-- No pair gets lost. -/
  complete : ∀ id, (id, userId) ∈ t.reviewers → ∃ p ∈ prs, p.id = id
  rising : prs.Pairwise PullRequest.Precedes

namespace Rests

variable {name : String} {t : Tables} {s : Session} {ks : List Call}

theorem exists_mirrors (hs : s.Rests name t) (hi : t.Integrity) (dated : t.Datable)
    (userId : Identifier) : ∃ prs, t.Worklist userId prs ∧ s.Mirrors name t userId prs := by
  have hu := hi.unambiguous
  obtain ⟨prs, hlist, htold⟩ := hu.exists_worklist dated userId
  refine ⟨prs, hlist, hs.tells_assignedReviews.mpr htold, ?_, ?_, ?_, hlist.rising⟩
  · intro id p hp
    obtain rfl := hu.pullRequestKeys id p hp
    refine ⟨t.reviewers.reviewersOf p.id, (hs.tells_review hu).mpr ⟨hp, rfl⟩, ?_⟩
    rw [hlist.count_of hp]
    simp only [Pairs.mem_reviewersOf]
  · exact fun p hp => ((hlist.mem p).mp hp).1
  · -- a pair does not dangle, so there is something to put into the list
    intro id hpair
    obtain ⟨⟨p, hp⟩, -⟩ := hi.pairs id userId hpair
    obtain rfl := hu.pullRequestKeys id p hp
    exact ⟨p, (hlist.mem p).mpr ⟨hp, hpair⟩, rfl⟩

end Rests

end Session

end ReviewRota
