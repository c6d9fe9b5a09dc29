import ReviewRota.Proofs.Outcome

/-!
# Steps of the service

One command on tables of integrity either refuses and leaves everything as it was, down to the
clock, or it makes one of the listed changes. All that is proved about runs of commands goes back
to this dichotomy.
-/

namespace ReviewRota

namespace Command

/-- What the surroundings of a command see to: drafts are consistent, a new team is not handed the
identifier of a stored one, and nobody asks for another number of reviewers than the usual one. -/
def Proper : Command → World → Prop
  | createTeam draft, w =>
    draft.Consistent ∧ (w.tables.teamNamed? draft.teamName = none →
      w.tables.teams.find? w.supply.freshId.1 = none)
  | openPullRequest _ _ _ _ limit, _ => limit = usualReviewers
  | _, _ => True

/-- How a command ends: it can make no change, or one, and the event that it reports is there. -/
inductive Ends (c : Command) (w : World) : Prop where
  | refused (f : Failure) (h : c.program.on w = (.error f, w))
  | kept (r : c.Result) (e : Event) (h : c.program.on w = (.ok r, w))
      (reported : c.report r = .ok e)
  | changed (r : c.Result) (e : Event) (w' : World) (h : c.program.on w = (.ok r, w'))
      (reported : c.report r = .ok e)
      (change : Tables.Change w.supply.readClock.1 w.tables w'.tables)

open Program

variable {w : World}

theorem ends_createTeam (hi : w.tables.Integrity) {draft : TeamDraft}
    (hp : (createTeam draft).Proper w) : (createTeam draft).Ends w := by
  cases h : w.tables.teamNamed? draft.teamName with
  | some team => exact .refused _ (on_createTeam_named h)
  | none =>
    obtain ⟨hd, hid⟩ := hp
    have hfresh := hid h
    refine .changed _ _ _ (on_createTeam_new hi hd hfresh h) rfl (.team hfresh h ?_ ?_ ?_)
    · rw [MemberDraft.map_id_joining]
      exact hd.ids
    · rw [MemberDraft.map_username_joining]
      exact hd.usernames
    · exact fun u hu => MemberDraft.teamId_of_mem_joining hu

theorem ends_setActive (hi : w.tables.Integrity) (id : Identifier) (isActive : Bool) :
    (setActive id isActive).Ends w := by
  cases h : w.tables.users.find? id with
  | none => exact .refused _ (on_setActive_unknown h isActive)
  | some u =>
    obtain rfl : u.id = id := hi.userKeys id u h
    obtain ⟨team, hteam⟩ := hi.userTeams _ u h
    exact .changed _ _ _ (on_setActive_known h hteam isActive) rfl (.activity h isActive)

theorem ends_openPullRequest (hi : w.tables.Integrity) (id : Identifier) (name : String)
    (authorId : Identifier) (draws : Draws) :
    (openPullRequest id name authorId draws usualReviewers).Ends w := by
  cases ha : w.tables.users.find? authorId with
  | none => exact .refused _ (on_openPullRequest_noAuthor ha name draws _)
  | some author =>
    obtain rfl : author.id = authorId := hi.userKeys authorId author ha
    cases hp : w.tables.pullRequests.find? id with
    | some p => exact .refused _ (on_openPullRequest_exists ha hp name draws _)
    | none =>
      refine .changed _ _ _ (on_openPullRequest_new hi.coherent ha hp name draws _) rfl ?_
      refine .pullRequest hp ⟨rfl, rfl, rfl⟩ ha ?_ ?_ ?_
      · exact Selection.nodup_reviewers (hi.unambiguous.nodup_pool author) _ draws
      · exact fun u hu => hi.unambiguous.of_mem_pool (Selection.mem_of_mem_reviewers hu)
      · rw [Selection.length_reviewers (by decide)]
        exact Nat.min_le_left _ _

theorem ends_merge (hi : w.tables.Integrity) (id : Identifier) : (merge id).Ends w := by
  cases h : w.tables.pullRequests.find? id with
  | none => exact .refused _ (on_merge_unknown h)
  | some p =>
    obtain rfl : p.id = id := hi.pullRequestKeys id p h
    cases hs : p.status with
    | opened => exact .changed _ _ _ (on_merge_opened h hs) rfl (.merge h hs)
    | merged =>
      obtain ⟨i, hm⟩ := Option.isSome_iff_exists.mp ((hi.mergeTimes _ p h).mp hs)
      obtain ⟨e, he⟩ : ∃ e, Operation.pullRequestMerged p.id p = .ok e :=
        ⟨_, by rw [Operation.pullRequestMerged, hm]⟩
      exact .kept p e (on_merge_merged h hs) he

theorem ends_reassign (hi : w.tables.Integrity) (id old : Identifier) (draws : Draws) :
    (reassign id old draws).Ends w := by
  cases h : w.tables.pullRequests.find? id with
  | none => exact .refused _ (on_reassign_unknown h old draws)
  | some p =>
    obtain rfl : p.id = id := hi.pullRequestKeys id p h
    cases hs : p.status with
    | merged => exact .refused _ (on_reassign_merged h hs old draws)
    | opened =>
      by_cases hold : (p.id, old) ∈ w.tables.reviewers
      · obtain ⟨author, ha⟩ := hi.authors _ p h
        by_cases hnone : w.tables.substitutes p author old = []
        · exact .refused _ (on_reassign_noCandidate h hs hold ha hnone draws)
        · obtain ⟨new, hn, hdraw⟩ := Selection.exists_replacement hnone draws
          obtain ⟨hauthor, -, hfree, u, hu⟩ := hi.unambiguous.of_mem_substitutes hn
          exact .changed _ _ _ (on_reassign_replaced hi.unambiguous h hs hold ha hn hdraw) rfl
            (.replacement h hs hold hfree hu hauthor)
      · exact .refused _ (on_reassign_notAssigned h hs hold draws)

/-- **Every command on tables of integrity refuses without a trace or makes one change.** -/
theorem ends (hi : w.tables.Integrity) {c : Command} (hp : c.Proper w) : c.Ends w := by
  cases c with
  | createTeam draft => exact ends_createTeam hi hp
  | setActive id isActive => exact ends_setActive hi id isActive
  | openPullRequest id name authorId draws limit =>
    obtain rfl : limit = usualReviewers := hp
    exact ends_openPullRequest hi id name authorId draws
  | merge id => exact ends_merge hi id
  | reassign id old draws => exact ends_reassign hi id old draws

/-- A command keeps the integrity of the tables. -/
theorem integrity_on (hi : w.tables.Integrity) {c : Command} (hp : c.Proper w) :
    (c.program.on w).2.tables.Integrity := by
  cases ends hi hp with
  | refused f h => rwa [h]
  | kept r e h => rwa [h]
  | changed r e w' h reported change =>
    rw [h]
    exact hi.change change

end Command

end ReviewRota
