import ReviewRota.Proofs.Changes
import ReviewRota.Proofs.Contention

/-!
# Doing it again alone

The invariant of calls that contend for rows, and that no step breaks it. A step of a call on its own
progress is one step more that can be done again. When another call commits, it has written about
another pull request, which makes no difference, or about the same one, and then the call at hand
has not been given its row yet and has done nothing so far. From the invariant it also follows that
nobody waits for ever: whoever holds a row needs no other one, so it can come to its end.
-/

namespace ReviewRota

open Sql

variable {ι : Type} {calls : ι → Call} {target : ι → Identifier} {t : Tables}
  {d d' : Contents} {es : List (Entry calls)}

/-! ## Tables along serial calls -/

namespace Serial

/-- Serial calls do to what the database holds what they do to tables, and what holds of the tables
at the start and outlasts every call holds in the end. -/
theorem holds_and {Q : List (Entry calls) → Tables → Prop} (h : Serial calls d es d')
    (handles : ∀ i, (calls i).command.Handles (target i)) (hi : t.Integrity) (held : d.Holds t)
    (start : Q [] t)
    (step : ∀ {es t' d' i r supply ws}, t'.Integrity → Contents.Holds t' d' → Q es t' →
      Exchange.Reaches d' (calls i).started (.ended r supply ws) →
        r = (Task.command (calls i)).outcome t' →
          Q (es ++ [⟨i, (calls i).command.conclude r, kept r ws⟩])
            ((Task.command (calls i)).leaves t')) :
    (Task.leaveAll (Call.tasks calls) (es.map Entry.call) t).Integrity ∧
      d'.Holds (Task.leaveAll (Call.tasks calls) (es.map Entry.call) t) ∧
      Q es (Task.leaveAll (Call.tasks calls) (es.map Entry.call) t) := by
  induction h with
  | nil => exact ⟨hi, held, start⟩
  | @snoc es d' i r supply ws past alone ih =>
    obtain ⟨hi', held', hQ⟩ := ih
    rw [List.map_append, List.map_singleton, Task.leaveAll_concat]
    obtain ⟨hr, hleaves⟩ :=
      Task.end_of_reaches (k := .command (calls i)) hi' (Call.fair (handles i) _) held' alone
    refine ⟨?_, ?_, step hi' held' hQ alone hr⟩
    · rcases Call.leaves_eq_or_change (handles i) hi' with he | hc
      · rwa [he]
      · exact hi'.change hc
    · unfold kept
      cases r <;> exact hleaves

variable (h : Serial calls d es d') (handles : ∀ i, (calls i).command.Handles (target i))
  (hi : t.Integrity) (held : d.Holds t)

include h handles hi held

theorem integrity : (Task.leaveAll (Call.tasks calls) (es.map Entry.call) t).Integrity :=
  (h.holds_and (Q := fun _ _ => True) handles hi held trivial fun _ _ _ _ _ => trivial).1

theorem holds : d'.Holds (Task.leaveAll (Call.tasks calls) (es.map Entry.call) t) :=
  (h.holds_and (Q := fun _ _ => True) handles hi held trivial fun _ _ _ _ _ => trivial).2.1

/-- Serial calls answer what they answer on tables. -/
theorem answers :
    es.map Entry.answered = Task.answerAll (Call.tasks calls) (es.map Entry.call) t := by
  induction h with
  | nil => rfl
  | @snoc es d' i r supply ws past alone ih =>
    rw [List.map_append, List.map_append, ih, List.map_singleton, List.map_singleton,
      Task.answerAll_concat]
    obtain ⟨rfl, -⟩ := Task.end_of_reaches (k := .command (calls i))
      (past.integrity handles hi held) (Call.fair (handles i) _) (past.holds handles hi held) alone
    rfl

/-- A pull request stays stored. -/
theorem stored {q : Identifier} (hq : ∃ p, t.pullRequests.find? q = some p) :
    ∃ p, (Task.leaveAll (Call.tasks calls) (es.map Entry.call) t).pullRequests.find? q = some p := by
  refine (h.holds_and (Q := fun _ t' => ∃ p, t'.pullRequests.find? q = some p) handles hi held hq
    ?_).2.2
  rintro es t' d' i r supply ws hi' - ⟨p, hp⟩ - -
  rcases Call.leaves_eq_or_change (handles i) hi' with he | hc
  · exact ⟨p, by rwa [he]⟩
  · obtain ⟨p', hp', -⟩ := hc.exists_sameOrigin hp
    exact ⟨p', hp'⟩

end Serial

namespace Contention

variable {i j : ι} {s s' : Contention calls}

/-! ## The invariant -/

/-- What a call that is at work has done can be done again alone on what is committed, and it has done
nothing unless it was given its pull request. -/
structure Replays (target : ι → Identifier) (s : Contention calls) (i : ι)
    (P : Exchange.Progress (calls i).command.Result) : Prop where
  reaches : Exchange.Reaches s.contents (calls i).started P
  confined : P.Confined (target i)
  locked : P = (calls i).started ∨ i ∈ s.granted (.pullRequest (target i))

/-- All calls that were given a row are over, in this order, except that the last one may still be at
work. -/
def Queue (k : RowKey) (s : Contention calls) : Prop :=
  (s.granted k).Sublist s.order ∨
    ∃ past j, s.granted k = past ++ [j] ∧ past.Sublist s.order ∧ s.stage j ≠ .returned

structure Sound (target : ι → Identifier) (d : Contents) (s : Contention calls) : Prop where
  distinct : s.order.Nodup
  returned : ∀ i, i ∈ s.order ↔ s.stage i = .returned
  serial : Serial calls d s.finished s.contents
  working : ∀ i P, s.stage i = .working P → s.Replays target i P
  own : ∀ k, ∀ i ∈ s.granted k, k = .pullRequest (target i)
  queue : ∀ k, s.Queue k
  locked : ∀ i ∈ s.order, i ∈ s.granted (.pullRequest (target i))

theorem sound_opening (handles : ∀ i, (calls i).command.Handles (target i)) :
    (opening calls d).Sound target d where
  distinct := .nil
  returned := fun i => ⟨nofun, nofun⟩
  serial := .nil
  working := by
    intro i P h
    obtain rfl := Stage.working.inj h
    exact ⟨.refl, Call.confined_started (handles i), Or.inl rfl⟩
  own := fun k i hi => absurd hi List.not_mem_nil
  queue := fun k => Or.inl (List.nil_sublist _)
  locked := fun i hi => absurd hi List.not_mem_nil

/-- Two calls at work are not given the same row. -/
theorem Queue.eq_of_working {k : RowKey} (h : s.Queue k)
    (hdone : ∀ i ∈ s.order, s.stage i = .returned) (hi : i ∈ s.granted k) (hj : j ∈ s.granted k)
    (hwi : s.stage i ≠ .returned) (hwj : s.stage j ≠ .returned) : i = j := by
  rcases h with hsub | ⟨past, l, hgranted, hsub, -⟩
  · exact absurd (hdone i (hsub.subset hi)) hwi
  · rw [hgranted] at hi hj
    have hlast : ∀ m ∈ past ++ [l], s.stage m ≠ .returned → m = l := by
      intro m hm hwm
      rcases List.mem_append.mp hm with hm | hm
      · exact absurd (hdone m (hsub.subset hm)) hwm
      · exact List.mem_singleton.mp hm
    rw [hlast i hi hwi, hlast j hj hwj]

section Steps

variable (handles : ∀ i, (calls i).command.Handles (target i)) (hi : t.Integrity)
  (held : d.Holds t) (stored : ∀ i, ∃ p, t.pullRequests.find? (target i) = some p)

include handles hi held stored in
theorem Sound.asked (h : s.Sound target d) (i : ι) :
    (calls i).started.Asks s.contents (.pullRequest (target i)) := by
  obtain ⟨p, hp⟩ := h.serial.stored handles hi held (stored i)
  exact Call.asks_started (handles i) (h.serial.holds handles hi held) hp

variable [DecidableEq ι]

theorem Sound.advance (h : s.Sound target d)
    (asked : ∀ i, (calls i).started.Asks s.contents (.pullRequest (target i)))
    {P P' : Exchange.Progress (calls i).command.Result} (at_work : s.stage i = .working P)
    (free : ∀ k, P.Asks s.contents k → s.FreeFor i k)
    (advances : Exchange.Advances s.contents P P') : (s.moved i P P').Sound target d where
  distinct := h.distinct
  returned := by
    intro j
    rw [order_moved, h.returned]
    by_cases hj : j = i
    · subst hj
      simp [at_work]
    · rw [stage_moved_of_ne hj]
  serial := h.serial
  working := by
    intro j Pj hPj
    by_cases hj : j = i
    · subst hj
      rw [stage_moved_self] at hPj
      obtain rfl := Stage.working.inj hPj
      obtain ⟨hreaches, hconfined, hlocked⟩ := h.working j P at_work
      refine ⟨hreaches.tail advances, hconfined.advance advances, Or.inr ?_⟩
      rw [mem_granted_moved]
      refine hlocked.symm.imp_right ?_
      rintro rfl
      exact ⟨rfl, asked j⟩
    · rw [stage_moved_of_ne hj] at hPj
      obtain ⟨hreaches, hconfined, hlocked⟩ := h.working j Pj hPj
      exact ⟨hreaches, hconfined, hlocked.imp_right fun hg => mem_granted_moved.mpr (Or.inl hg)⟩
  own := by
    intro k j hj
    rcases mem_granted_moved.mp hj with hj | ⟨rfl, hasks⟩
    · exact h.own k j hj
    · exact (h.working j P at_work).confined.eq_of_asks hasks
  queue := by
    intro k
    by_cases hnew : P.Asks s.contents k ∧ i ∉ s.granted k
    · -- the row was free, so that all who were given it before are over
      refine Or.inr ⟨s.granted k, i, granted_moved_of_asked hnew.1 hnew.2, ?_, ?_⟩
      · rcases h.queue k with hsub | ⟨past, j, hgranted, -, hj⟩
        · exact hsub
        · have hmem : j ∈ s.granted k := by simp [hgranted]
          rcases free k hnew.1 j hmem with rfl | hdone
          · exact absurd hmem hnew.2
          · exact absurd hdone hj
      · simp
    · rw [Queue, granted_moved_of_not hnew]
      refine (h.queue k).imp_right ?_
      rintro ⟨past, j, hgranted, hsub, hj⟩
      refine ⟨past, j, hgranted, hsub, ?_⟩
      by_cases he : j = i
      · subst he
        simp
      · rwa [stage_moved_of_ne he]
  locked := fun j hj => mem_granted_moved.mpr (Or.inl (h.locked j hj))

include handles in
theorem Sound.finish (h : s.Sound target d) {r : Except Failure (calls i).command.Result}
    {supply : Supply} {ws : List Write} (at_end : s.stage i = .working (.ended r supply ws)) :
    (s.left i r ws).Sound target d := by
  have hworking : s.stage i ≠ .returned := by
    rw [at_end]
    nofun
  obtain ⟨hreaches, hconfined, hlocked⟩ := h.working i _ at_end
  replace hlocked := hlocked.resolve_left (Call.started_ne_ended (handles i))
  refine ⟨?_, ?_, h.serial.snoc hreaches, ?_, h.own, ?_, ?_⟩
  · rw [order_left, List.nodup_append]
    refine ⟨h.distinct, List.nodup_singleton i, fun j hj l hl => ?_⟩
    rintro rfl
    obtain rfl := List.mem_singleton.mp hl
    exact hworking ((h.returned _).mp hj)
  · intro j
    rw [order_left, List.mem_append, List.mem_singleton]
    by_cases hj : j = i
    · subst hj
      simp
    · rw [stage_left_of_ne hj, h.returned]
      exact or_iff_left hj
  · intro j Pj hPj
    have hj : j ≠ i := by
      rintro rfl
      simp at hPj
    rw [stage_left_of_ne hj] at hPj
    obtain ⟨hreachesj, hconfinedj, hlockedj⟩ := h.working j Pj hPj
    refine ⟨?_, hconfinedj, hlockedj⟩
    by_cases hp : target i = target j
    · -- nobody else has been given the row that the commit is about
      rcases hlockedj with rfl | hlockedj
      · exact .refl
      · rw [← hp] at hlockedj
        have hdone : ∀ l ∈ s.order, s.stage l = .returned := fun l => (h.returned l).mp
        refine absurd ((h.queue _).eq_of_working hdone hlockedj hlocked ?_ hworking) hj
        rw [hPj]
        nofun
    · have hwrites : ∀ w ∈ kept r ws, w.Concerns (target i) := by
        intro w hw
        refine hconfined.writes w ?_
        unfold kept at hw
        split at hw
        · exact hw
        · exact absurd hw List.not_mem_nil
      exact hreachesj.alike (.of_writeAll hp hwrites _) (Call.confined_started (handles j))
  · intro k
    rw [Queue, order_left, granted_left]
    rcases h.queue k with hsub | ⟨past, j, hgranted, hsub, hj⟩
    · exact Or.inl (hsub.trans (List.sublist_append_left ..))
    · by_cases he : j = i
      · subst he
        rw [hgranted]
        exact Or.inl (hsub.append (List.Sublist.refl _))
      · refine Or.inr ⟨past, j, hgranted, hsub.trans (List.sublist_append_left ..), ?_⟩
        rwa [stage_left_of_ne he]
  · intro j hj
    rw [order_left, List.mem_append, List.mem_singleton] at hj
    rcases hj with hj | rfl
    · exact h.locked j hj
    · exact hlocked

include handles hi held stored

/-- No step breaks the invariant. -/
theorem Sound.step (h : s.Sound target d) (hs : Step i s s') : s'.Sound target d := by
  cases hs with
  | advance at_work free advances =>
    exact h.advance (h.asked handles hi held stored) at_work free advances
  | finish at_end => exact h.finish handles at_end

theorem Sound.leads (h : s.Sound target d) (hs : s.Leads s') : s'.Sound target d := by
  induction hs with
  | refl => exact h
  | tail _ hstep ih =>
    obtain ⟨i, hi'⟩ := hstep
    exact ih.step handles hi held stored hi'

end Steps

/-! ## Coming to an end -/

section Ends

variable [DecidableEq ι]

/-- The scheduler lets only one call go on for a while. -/
structure Alone (i : ι) (s s' : Contention calls) : Prop where
  leads : s.Leads s'
  others : ∀ j, j ≠ i → s'.stage j = s.stage j
  granted : ∀ k j, j ∈ s'.granted k → j ∈ s.granted k ∨ j = i

theorem Alone.refl (i : ι) (s : Contention calls) : Alone i s s :=
  ⟨.refl, fun _ _ => rfl, fun _ _ => Or.inl⟩

theorem Alone.tail {s'' : Contention calls} (h : Alone i s s') (hs : Step i s' s'') :
    Alone i s s'' where
  leads := h.leads.tail ⟨i, hs⟩
  others := fun j hj => (hs.stage_of_ne hj).trans (h.others j hj)
  granted := by
    intro k j hj
    cases hs with
    | advance =>
      rcases mem_granted_moved.mp hj with hj | ⟨rfl, -⟩
      · exact h.granted k j hj
      · exact Or.inr rfl
    | finish => exact h.granted k j hj

/-- What is free for a call stays so while only that call goes on. -/
theorem Alone.freeFor {k : RowKey} (h : Alone i s s') (free : s.FreeFor i k) : s'.FreeFor i k := by
  intro j hj
  by_cases he : j = i
  · exact Or.inl he
  · rw [h.others j he]
    exact free j ((h.granted k j hj).resolve_right he)

/-- A call can go on as long as its pull request is free for it. -/
theorem exists_worked {p : Identifier} {P P' : Exchange.Progress (calls i).command.Result}
    (at_work : s.stage i = .working P) (confined : P.Confined p)
    (free : s.FreeFor i (.pullRequest p)) (steps : Exchange.Reaches s.contents P P') :
    ∃ s', Alone i s s' ∧ s'.contents = s.contents ∧ s'.stage i = .working P' := by
  induction steps with
  | refl => exact ⟨s, .refl i s, rfl, at_work⟩
  | @tail P₁ P₂ steps step ih =>
    obtain ⟨s₁, halone, hcontents, hstage⟩ := ih
    rw [← hcontents] at step
    refine ⟨s₁.moved i P₁ P₂, halone.tail (.advance hstage (fun k hasks => ?_) step), hcontents,
      stage_moved_self⟩
    obtain rfl := (confined.reach steps).eq_of_asks hasks
    exact halone.freeFor free

variable (handles : ∀ i, (calls i).command.Handles (target i)) (hi : t.Integrity)
  (held : d.Holds t) (stored : ∀ i, ∃ p, t.pullRequests.find? (target i) = some p)

include handles hi held

theorem Sound.exists_returned_of_free (h : s.Sound target d)
    (free : s.FreeFor i (.pullRequest (target i))) :
    ∃ s', Alone i s s' ∧ s'.stage i = .returned := by
  cases hstage : s.stage i with
  | returned => exact ⟨s, .refl i s, hstage⟩
  | working P =>
    obtain ⟨hreaches, hconfined, -⟩ := h.working i P hstage
    have hstart := Task.ensures_start (k := .command (calls i)) (h.serial.integrity handles hi held)
      (Call.fair (handles i) _) (h.serial.holds handles hi held)
    obtain ⟨r, supply, ws, hend⟩ := (hstart.reach hreaches).exists_end
    obtain ⟨s₁, halone, -, hended⟩ := exists_worked hstage hconfined free hend
    exact ⟨s₁.left i r ws, halone.tail (.finish hended), stage_left_self⟩

include stored

/-- No call waits for ever: whoever holds the row that it needs can come to an end first. -/
theorem Sound.exists_returned (h : s.Sound target d) (i : ι) :
    ∃ s', s.Leads s' ∧ s'.stage i = .returned := by
  by_cases free : s.FreeFor i (.pullRequest (target i))
  · obtain ⟨s', halone, hdone⟩ := h.exists_returned_of_free handles hi held free
    exact ⟨s', halone.leads, hdone⟩
  · obtain ⟨j, hj, hne, hworking⟩ : ∃ j ∈ s.granted (.pullRequest (target i)), j ≠ i ∧
        s.stage j ≠ .returned := by
      simpa [FreeFor] using free
    have hplace := h.own _ j hj
    -- a second one at work with the same row would be the same call
    have honly : ∀ l ∈ s.granted (.pullRequest (target i)), l = j ∨ s.stage l = .returned := by
      intro l hl
      by_contra hnone
      obtain ⟨hlj, hwl⟩ := not_or.mp hnone
      exact hlj ((h.queue _).eq_of_working (fun m => (h.returned m).mp) hl hj hwl hworking)
    have hown : s.FreeFor j (.pullRequest (target j)) := by rwa [← hplace]
    obtain ⟨s₁, halone, hdone⟩ := h.exists_returned_of_free handles hi held hown
    have h₁ := h.leads handles hi held stored halone.leads
    have hfree : s₁.FreeFor i (.pullRequest (target i)) := by
      intro l hl
      refine Or.inr ?_
      by_cases hlj : l = j
      · rwa [hlj]
      · rw [halone.others l hlj]
        have hbefore := (halone.granted _ l hl).resolve_right hlj
        exact (honly l hbefore).resolve_left hlj
    obtain ⟨s₂, halone₂, hdone₂⟩ := h₁.exists_returned_of_free handles hi held hfree
    exact ⟨s₂, halone.leads.trans halone₂.leads, hdone₂⟩

theorem Sound.exists_all_returned (h : s.Sound target d) (is : List ι) :
    ∃ s', s.Leads s' ∧ ∀ i ∈ is, s'.stage i = .returned := by
  induction is generalizing s with
  | nil => exact ⟨s, .refl, by simp⟩
  | cons i is ih =>
    obtain ⟨s₁, hs₁, hdone⟩ := h.exists_returned handles hi held stored i
    obtain ⟨s₂, hs₂, hall⟩ := ih (h.leads handles hi held stored hs₁)
    refine ⟨s₂, hs₁.trans hs₂, List.forall_mem_cons.mpr ⟨hs₂.returned hdone, hall⟩⟩

end Ends

end Contention

end ReviewRota
