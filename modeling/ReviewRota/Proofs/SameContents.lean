import ReviewRota.Proofs.TwoRuns
import ReviewRota.Proofs.Unambiguous

/-!
# The same contents in another order

Tables hold the same when the same is found in them, whatever order their ledgers and their pairs
are in. On such tables every request to the store is answered alike, list for list, and leaves tables
that hold the same again: each list that a request gathers is sorted by something that tells its
elements apart.
-/

namespace ReviewRota

namespace Tables

/-- The same teams, users, pull requests and pairs, in whatever order. -/
structure SameContents (t t' : Tables) : Prop where
  teams : ∀ k, t.teams.find? k = t'.teams.find? k
  users : ∀ k, t.users.find? k = t'.users.find? k
  pullRequests : ∀ k, t.pullRequests.find? k = t'.pullRequests.find? k
  reviewers : ∀ x, x ∈ t.reviewers ↔ x ∈ t'.reviewers

variable {t t' t'' : Tables}

namespace SameContents

theorem refl (t : Tables) : t.SameContents t :=
  ⟨fun _ => rfl, fun _ => rfl, fun _ => rfl, fun _ => Iff.rfl⟩

theorem symm (h : t.SameContents t') : t'.SameContents t :=
  ⟨fun k => (h.teams k).symm, fun k => (h.users k).symm, fun k => (h.pullRequests k).symm,
    fun x => (h.reviewers x).symm⟩

theorem trans (h : t.SameContents t') (h' : t'.SameContents t'') : t.SameContents t'' :=
  ⟨fun k => (h.teams k).trans (h'.teams k), fun k => (h.users k).trans (h'.users k),
    fun k => (h.pullRequests k).trans (h'.pullRequests k),
    fun x => (h.reviewers x).trans (h'.reviewers x)⟩

theorem unambiguous (h : t.SameContents t') (hu : t.Unambiguous) : t'.Unambiguous where
  teamKeys k team hk := hu.teamKeys k team ((h.teams k).trans hk)
  userKeys k u hk := hu.userKeys k u ((h.users k).trans hk)
  pullRequestKeys k p hk := hu.pullRequestKeys k p ((h.pullRequests k).trans hk)
  teamNames j k a b ha hb := hu.teamNames j k a b ((h.teams j).trans ha) ((h.teams k).trans hb)
  usernames j k a b ha hb := hu.usernames j k a b ((h.users j).trans ha) ((h.users k).trans hb)

/-! ## Changes -/

theorem putTeam (h : t.SameContents t') (team : Team) :
    (t.putTeam team).SameContents (t'.putTeam team) :=
  ⟨fun k => by rw [find?_putTeam, find?_putTeam, h.teams], h.users, h.pullRequests, h.reviewers⟩

theorem putUser (h : t.SameContents t') (u : User) :
    (t.putUser u).SameContents (t'.putUser u) :=
  ⟨h.teams, fun k => by rw [find?_putUser, find?_putUser, h.users], h.pullRequests, h.reviewers⟩

theorem putPullRequest (h : t.SameContents t') (p : PullRequest) :
    (t.putPullRequest p).SameContents (t'.putPullRequest p) :=
  ⟨h.teams, h.users,
    fun k => by rw [find?_putPullRequest, find?_putPullRequest, h.pullRequests], h.reviewers⟩

theorem insert (h : t.SameContents t') (x : Identifier × Identifier) : SameContents
    { t with reviewers := t.reviewers.insert x } { t' with reviewers := t'.reviewers.insert x } :=
  ⟨h.teams, h.users, h.pullRequests,
    fun y => by rw [Pairs.mem_insert, Pairs.mem_insert, h.reviewers]⟩

theorem erase (h : t.SameContents t') (x : Identifier × Identifier) : SameContents
    { t with reviewers := t.reviewers.erase x } { t' with reviewers := t'.reviewers.erase x } :=
  ⟨h.teams, h.users, h.pullRequests,
    fun y => by rw [Pairs.mem_erase, Pairs.mem_erase, h.reviewers]⟩

/-! ## What is found -/

theorem teamNamed? (h : t.SameContents t') (hu : t.Unambiguous) (name : String) :
    t.teamNamed? name = t'.teamNamed? name := by
  ext team
  rw [hu.teamNamed?_eq_some, (h.unambiguous hu).teamNamed?_eq_some, h.teams]

theorem usernameTaken (h : t.SameContents t') (u : User) :
    t.usernameTaken u = t'.usernameTaken u := by
  have hfree : t.usernameTaken u = false ↔ t'.usernameTaken u = false := by
    simp only [usernameTaken_eq_false, h.users]
  cases hl : t.usernameTaken u <;> cases hr : t'.usernameTaken u <;> simp_all

theorem contains_users (h : t.SameContents t') (k : Identifier) :
    t.users.contains k = t'.users.contains k := by
  rw [Ledger.contains, Ledger.contains, h.users]

theorem contains_pullRequests (h : t.SameContents t') (k : Identifier) :
    t.pullRequests.contains k = t'.pullRequests.contains k := by
  rw [Ledger.contains, Ledger.contains, h.pullRequests]

theorem usersOfTeam (h : t.SameContents t') (hu : t.Unambiguous) (teamId : Identifier) :
    t.usersOfTeam teamId = t'.usersOfTeam teamId := by
  refine (h.unambiguous hu).eq_usersOfTeam (hu.nodup_usersOfTeam teamId) ?_
    (t.usersOfTeam_sorted teamId)
  intro u
  rw [hu.mem_usersOfTeam, h.users]

theorem named (h : t.SameContents t') (ids : List Identifier) :
    ids.filterMap t.pullRequests.find? = ids.filterMap t'.pullRequests.find? :=
  List.filterMap_congr fun id _ => h.pullRequests id

theorem reviewersOf (h : t.SameContents t') (p : Identifier) :
    t.reviewers.reviewersOf p = t'.reviewers.reviewersOf p :=
  Pairs.reviewersOf_congr fun u => h.reviewers (p, u)

theorem reviewedBy (h : t.SameContents t') (u : Identifier) :
    t.reviewers.reviewedBy u = t'.reviewers.reviewedBy u :=
  Pairs.reviewedBy_congr fun p => h.reviewers (p, u)

end SameContents

end Tables

/-- A pull request, its reviewers and all who could review it are as they were. -/
structure Tables.Untouched (p : Identifier) (t t' : Tables) : Prop where
  teams : t'.teams = t.teams
  users : t'.users = t.users
  pullRequest : t'.pullRequests.find? p = t.pullRequests.find? p
  reviewers : ∀ u, (p, u) ∈ t'.reviewers ↔ (p, u) ∈ t.reviewers

namespace Tables.Untouched

variable {p : Identifier} {t t' t'' : Tables}

theorem refl (p : Identifier) (t : Tables) : t.Untouched p t := ⟨rfl, rfl, rfl, fun _ => Iff.rfl⟩

theorem symm (h : t.Untouched p t') : t'.Untouched p t :=
  ⟨h.teams.symm, h.users.symm, h.pullRequest.symm, fun u => (h.reviewers u).symm⟩

theorem trans (h : t.Untouched p t') (h' : t'.Untouched p t'') : t.Untouched p t'' :=
  ⟨h'.teams.trans h.teams, h'.users.trans h.users, h'.pullRequest.trans h.pullRequest,
    fun u => (h'.reviewers u).trans (h.reviewers u)⟩

/-- Tables that agree on every pull request hold the same. -/
theorem sameContents (h : ∀ p, t.Untouched p t') : t.SameContents t' where
  teams k := by rw [(h k).teams]
  users k := by rw [(h k).users]
  pullRequests k := (h k).pullRequest.symm
  reviewers x := ((h x.1).reviewers x.2).symm

end Tables.Untouched

/-- The same contents, told apart by keys, names and usernames, and the same to be handed out. -/
structure World.Alike (w w' : World) : Prop where
  contents : w.tables.SameContents w'.tables
  unambiguous : w.tables.Unambiguous
  supply : w.supply = w'.supply

namespace StoreCall

/-- **A request does not see the order of the tables.** -/
theorem respects_alike (q : StoreCall) : q.Respects World.Alike := by
  rintro w ⟨t', supply⟩ ⟨h, hu, rfl⟩
  -- that the tables stay unambiguous is known for all requests
  suffices hsame : (q.run w).1 = (q.run ⟨t', w.supply⟩).1 ∧
      (q.run w).2.tables.SameContents (q.run ⟨t', w.supply⟩).2.tables ∧
      (q.run w).2.supply = (q.run ⟨t', w.supply⟩).2.supply by
    exact ⟨hsame.1, hsame.2.1, unambiguous_run hu q, hsame.2.2⟩
  cases q with
  | createTeam name =>
    have hname := h.teamNamed? hu name
    cases hfound : w.tables.teamNamed? name with
    | some team => simpa [run, hfound, ← hname] using h
    | none =>
      rw [run_createTeam hfound, run_createTeam (hname.symm.trans hfound)]
      exact ⟨rfl, h.putTeam ⟨w.supply.freshId.1, name⟩, rfl⟩
  | teamNamed name =>
    have hname := h.teamNamed? hu name
    cases hfound : w.tables.teamNamed? name <;> simpa [run, hfound, ← hname] using h
  | team id =>
    have hid := h.teams id
    cases hfound : w.tables.teams.find? id <;> simpa [run, hfound, ← hid] using h
  | createUser username isActive teamId id? =>
    simp only [run_createUser_eq, ← h.contains_users, ← h.usernameTaken]
    split
    · exact ⟨rfl, h, rfl⟩
    · split
      · exact ⟨rfl, h, rfl⟩
      · exact ⟨rfl, h.putUser _, rfl⟩
  | user id =>
    have hid := h.users id
    cases hfound : w.tables.users.find? id <;> simpa [run, hfound, ← hid] using h
  | setActive id isActive =>
    have hid := h.users id
    cases hfound : w.tables.users.find? id with
    | none => simpa [run, hfound, ← hid] using h
    | some u =>
      obtain rfl := hu.userKeys id u hfound
      rw [run_setActive hfound, run_setActive (hid.symm.trans hfound)]
      exact ⟨rfl, h.putUser _, rfl⟩
  | usersOfTeam teamId => exact ⟨congrArg Except.ok (h.usersOfTeam hu teamId), h, rfl⟩
  | updateUser u =>
    have hid := h.users u.id
    have hname := h.usernameTaken u
    cases hfound : w.tables.users.find? u.id with
    | none => simpa [run, hfound, ← hid] using h
    | some old =>
      cases hfree : w.tables.usernameTaken u with
      | true => simpa [run, hfound, hfree, ← hid, ← hname] using h
      | false => simpa [run, hfound, hfree, ← hid, ← hname] using h.putUser u
  | createPullRequest id name authorId =>
    simp only [run, ← h.contains_users, ← h.contains_pullRequests]
    split
    · exact ⟨rfl, h, rfl⟩
    · split
      · exact ⟨rfl, h, rfl⟩
      · exact ⟨rfl, h.putPullRequest _, rfl⟩
  | pullRequest id lock =>
    have hid := h.pullRequests id
    cases hfound : w.tables.pullRequests.find? id <;> simpa [run, hfound, ← hid] using h
  | pullRequests ids =>
    refine ⟨congrArg Except.ok ?_, h, rfl⟩
    rw [h.named (Cell.ids ids)]
  | setMerged id =>
    have hid := h.pullRequests id
    cases hfound : w.tables.pullRequests.find? id with
    | none => simpa [run, hfound, ← hid] using h
    | some p =>
      cases hm : p.isMerged with
      | true => simpa [run, hfound, hm, ← hid] using h
      | false => simpa [run, hfound, hm, ← hid] using h.putPullRequest _
  | assign p u =>
    simp only [run, ← h.reviewers, ← h.contains_users, ← h.contains_pullRequests]
    split
    · exact ⟨rfl, h, rfl⟩
    · split
      · exact ⟨rfl, h, rfl⟩
      · exact ⟨rfl, h.insert _, rfl⟩
  | unassign p u =>
    simp only [run, ← h.reviewers]
    split
    · exact ⟨rfl, h.erase _, rfl⟩
    · exact ⟨rfl, h, rfl⟩
  | reviewersOf p =>
    refine ⟨congrArg Except.ok ?_, h, rfl⟩
    rw [h.reviewersOf p]
  | reviewedBy u =>
    refine ⟨congrArg Except.ok ?_, h, rfl⟩
    rw [h.reviewedBy u]

end StoreCall

end ReviewRota
