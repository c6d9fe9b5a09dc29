import ReviewRota.Proofs.SameContents
import ReviewRota.Proofs.Tasks

/-!
# Answers do not depend on history

Two tables that came about in different ways may list what they hold in different orders. A call
that finds the same contents gives the same answer on both, element for element, and leaves the same
contents again; so the reviewers that given draws come to do not depend on the order in which users
were created. Nor do answers depend on the order in which the sets of reviewers and of reviewed pull
requests are gone through.
-/

namespace ReviewRota

/-! ## The order of creation -/

namespace PullRequest

theorem createdBefore_iff {p q : PullRequest} : p.createdBefore q = true ↔
    p.createdAt.universal < q.createdAt.universal ∨
      (p.createdAt.universal = q.createdAt.universal ∧ p.id.toNat ≤ q.id.toNat) := by
  simp [createdBefore, Identifier.le]

theorem createdBefore_trans (p q r : PullRequest) (hpq : p.createdBefore q = true)
    (hqr : q.createdBefore r = true) : p.createdBefore r = true := by
  rw [createdBefore_iff] at *
  omega

theorem createdBefore_total (p q : PullRequest) :
    (p.createdBefore q || q.createdBefore p) = true := by
  rw [Bool.or_eq_true, createdBefore_iff, createdBefore_iff]
  omega

/-- Only one pull request of an identifier can stand in a place of the order. -/
theorem id_eq_of_createdBefore {p q : PullRequest} (hpq : p.createdBefore q = true)
    (hqp : q.createdBefore p = true) : p.id = q.id := by
  rw [createdBefore_iff] at hpq hqp
  apply Identifier.toNat_injective
  omega

theorem haveOrder_eq_true {ps : List PullRequest} : haveOrder ps = true ↔
    ∀ p ∈ ps, ∀ q ∈ ps, p.createdAt.comparable q.createdAt = true := by
  simp [haveOrder]

theorem haveOrder_perm {ps qs : List PullRequest} (h : ps.Perm qs) : haveOrder ps = haveOrder qs := by
  have hiff : haveOrder ps = true ↔ haveOrder qs = true := by
    simp only [haveOrder_eq_true, h.mem_iff]
  exact Bool.eq_iff_iff.mpr hiff

end PullRequest

namespace Operation

open StoreCall (put)

/-- What a user is told about the pull requests that he reviews. -/
def summaries (prs : List PullRequest) : Except Failure (List PullRequestSummary) :=
  if PullRequest.haveOrder prs then .ok ((prs.mergeSort PullRequest.createdBefore).map .of)
  else .error .incomparableInstants

/-- A call that has found pull requests ends with what the user is told about them. -/
theorem ofExcept_summaries (prs : List PullRequest) :
    (Dialogue.ofExcept (summaries prs) : Program (List PullRequestSummary)) =
      if PullRequest.haveOrder prs then return (prs.mergeSort PullRequest.createdBefore).map .of
      else .fail .incomparableInstants := by
  rw [summaries]
  split <;> rfl

/-- It does not matter in which order they are found. -/
theorem summaries_perm {ps qs : List PullRequest} (h : ps.Perm qs)
    (ids : ∀ p ∈ ps, ∀ q ∈ ps, p.id = q.id → p = q) : summaries ps = summaries qs := by
  have hsorted : ∀ rs : List PullRequest,
      (rs.mergeSort PullRequest.createdBefore).Pairwise fun p q => p.createdBefore q = true :=
    fun rs => List.pairwise_mergeSort PullRequest.createdBefore_trans PullRequest.createdBefore_total rs
  have hsame : ps.mergeSort PullRequest.createdBefore = qs.mergeSort PullRequest.createdBefore := by
    refine List.Perm.eq_of_pairwise ?_ (hsorted ps) (hsorted qs)
      (((List.mergeSort_perm ps _).trans h).trans (List.mergeSort_perm qs _).symm)
    intro p q hp hq hpq hqp
    have hq' : q ∈ ps := h.mem_iff.mpr (List.mem_mergeSort.mp hq)
    exact ids p (List.mem_mergeSort.mp hp) q hq' (PullRequest.id_eq_of_createdBefore hpq hqp)
  rw [summaries, summaries, PullRequest.haveOrder_perm h, hsame]

end Operation

/-- The instants at which pull requests were created have an order. -/
def Tables.Datable (t : Tables) : Prop :=
  ∀ j k p q, t.pullRequests.find? j = some p → t.pullRequests.find? k = some q →
    p.createdAt.comparable q.createdAt = true

theorem Tables.Datable.haveOrder {t : Tables} (h : t.Datable) (ids : List Identifier) :
    PullRequest.haveOrder (ids.filterMap t.pullRequests.find?) = true := by
  rw [PullRequest.haveOrder_eq_true]
  intro p hp q hq
  obtain ⟨j, -, hj⟩ := List.mem_filterMap.mp hp
  obtain ⟨k, -, hk⟩ := List.mem_filterMap.mp hq
  exact h j k p q hj hk

namespace Program

open Operation

theorem on_assignedReviews (userId : Identifier) (w : World) : (assignedReviews userId).on w =
    (summaries ((w.tables.reviewers.reviewedBy userId).filterMap w.tables.pullRequests.find?), w) := by
  have hids : on (StoreCall.put (.reviewedBy userId)) w =
      (.ok ((w.tables.reviewers.reviewedBy userId).map .identifier), w) := on_put _ w
  rw [assignedReviews, on_bind_of_ok hids]
  split
  · rename_i hempty
    simp [List.map_eq_nil_iff.mp (List.isEmpty_iff.mp hempty), summaries, PullRequest.haveOrder]
  · have hprs : on (StoreCall.put (.pullRequests
        ((w.tables.reviewers.reviewedBy userId).map .identifier))) w =
          (.ok ((w.tables.reviewers.reviewedBy userId).filterMap w.tables.pullRequests.find?), w) := by
      rw [on_put, StoreCall.run, Cell.ids_map_identifier]
    rw [on_bind_of_ok hprs, ← ofExcept_summaries, on_ofExcept]

end Program

/-! ## Sets in any order -/

/-- The sets that calls get from tables may be gone through in any order: reviewers are told sorted,
those who can be replaced and those who can replace them are settled by membership, and the pull
requests that a user reviews are told in the order of their creation. -/
structure Tables.SetsInAnyOrder (t t' : Tables) : Prop where
  reviewers : ∀ p (order : List Identifier), order.Perm (t'.reviewers.reviewersOf p) →
    order.mergeSort Identifier.le = t.reviewers.reviewersOf p
  replaceable : ∀ p (order : List Identifier), order.Perm (t'.reviewers.reviewersOf p) → ∀ pr old,
    Selection.checkReplaceable pr order old =
      Selection.checkReplaceable pr (t.reviewers.reviewersOf p) old
  substitutes : ∀ p (order : List Identifier), order.Perm (t'.reviewers.reviewersOf p) → ∀ users author old,
    Selection.eligible users (author :: old :: order) =
      Selection.eligible users (author :: old :: t.reviewers.reviewersOf p)
  reviews : ∀ userId (order : List Identifier), order.Perm (t'.reviewers.reviewedBy userId) → ∀ supply,
    Operation.summaries (order.filterMap t'.pullRequests.find?) =
      (Task.query (.assignedReviews userId) supply).answer t

namespace Tables.SameContents

variable {t t' : Tables}

theorem setsInAnyOrder (h : t.SameContents t') (hu : t.Unambiguous) : t.SetsInAnyOrder t' where
  reviewers p order hperm := by
    have hsorted : (order.mergeSort Identifier.le).Pairwise fun a b => a.le b = true :=
      List.pairwise_mergeSort Identifier.le_trans Identifier.le_total order
    rw [h.reviewersOf]
    exact ((List.mergeSort_perm order _).trans hperm).eq_of_pairwise
      (fun _ _ _ _ => Identifier.le_antisymm) hsorted (Identifier.setOf_sorted _)
  replaceable p order hperm pr old := by
    have hmem : order.contains old = (t'.reviewers.reviewersOf p).contains old := by
      rw [Bool.eq_iff_iff, List.contains_iff_mem, List.contains_iff_mem, hperm.mem_iff]
    rw [Selection.checkReplaceable, Selection.checkReplaceable, h.reviewersOf, hmem]
  substitutes p order hperm users author old := by
    rw [Selection.eligible, Selection.eligible, h.reviewersOf]
    congr 1
    refine List.filter_congr fun u _ => ?_
    have hmem : (author :: old :: order).contains u.id =
        (author :: old :: t'.reviewers.reviewersOf p).contains u.id := by
      rw [Bool.eq_iff_iff, List.contains_iff_mem, List.contains_iff_mem,
        ((hperm.cons old).cons author).mem_iff]
    rw [hmem]
  reviews userId order hperm supply := by
    have hanswer : (Task.query (.assignedReviews userId) supply).answer t =
        ((Operation.assignedReviews userId).on ⟨t, supply⟩).1 := rfl
    have hlist : (order.filterMap t'.pullRequests.find?).Perm
        ((t.reviewers.reviewedBy userId).filterMap t.pullRequests.find?) := by
      rw [h.named, h.reviewedBy]
      exact hperm.filterMap _
    rw [hanswer, Program.on_assignedReviews]
    exact Operation.summaries_perm hlist fun p hp q hq =>
      (h.unambiguous hu).pullRequest_unique hp hq

/-- Tables whose lists are rearranged hold the same. -/
theorem of_perm (teams : t.teams.entries.Perm t'.teams.entries)
    (users : t.users.entries.Perm t'.users.entries)
    (pullRequests : t.pullRequests.entries.Perm t'.pullRequests.entries)
    (reviewers : t.reviewers.list.Perm t'.reviewers.list) : t.SameContents t' :=
  ⟨Ledger.find?_perm teams, Ledger.find?_perm users, Ledger.find?_perm pullRequests,
    fun _ => reviewers.mem_iff⟩

end Tables.SameContents

namespace Task

variable {name name' : String} {t t' : Tables} {ks : List Call}

theorem outcome_congr (h : t.SameContents t') (hu : t.Unambiguous) (k : Task) :
    k.outcome t = k.outcome t' ∧ (k.leaves t).SameContents (k.leaves t') := by
  have halike : World.Alike ⟨t, k.supply⟩ ⟨t', k.supply⟩ := ⟨h, hu, rfl⟩
  obtain ⟨hanswer, hafter⟩ :=
    Program.respects_of_all StoreCall.respects_alike k.program _ _ halike
  refine ⟨hanswer, ?_⟩
  rw [leaves, leaves, outcome, outcome, hanswer]
  split
  · exact hafter.contents
  · exact h

open Call (founding opening)

/-- The team of three with its members named the other way round. -/
def refounding : Call :=
  ⟨.createTeam ⟨"core",
    [⟨.ofNat 3, "cid", false⟩, ⟨.ofNat 2, "bob", true⟩, ⟨.ofNat 1, "ann", true⟩]⟩, default⟩

theorem same_founding : (founding.after .empty).SameContents (refounding.after .empty) :=
  .of_perm (by decide) (by decide) (by decide) (by decide)

end Task

end ReviewRota
