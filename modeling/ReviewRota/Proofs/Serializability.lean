import ReviewRota.Proofs.Traffic

/-!
# Serializability

Calls that are made next to each other come to what they come to one after the other, in the order
in which they were given the lock; a call that reads comes to what it comes to on the tables that
were committed when it took hold of them.

The invariant looks at every call by itself: a call that has the lock is the last that was given
it, and the rest of its dialogue comes to what the whole dialogue comes to on the tables that the
calls before it leave. Versions are numbered, and only those behind the committed one are written
to, so the version of a call that reads is never touched.
-/

namespace ReviewRota

/-- The call is between taking the lock and releasing it. -/
def Stage.hasLock {α : Type} : Stage α → Prop
  | .locked | .inside .. | .settled _ => True
  | _ => False

namespace Traffic

variable {ι : Type} {calls : ι → Task}

/-- What the stage of a call has to do with the tables and with the order of the lock. -/
def Fits (calls : ι → Task) (t : Tables) (v : VersionedTables) (granted : List ι) (i : ι) :
    Stage (calls i).Result → Prop
  | .idle => i ∉ granted
  | .locked => ∃ past, granted = past ++ [i] ∧ v.busy = true ∧
      v.committed = Task.leaveAll calls past t
  | .inside n supply rest => ∃ past, granted = past ++ [i] ∧ v.busy = true ∧
      v.committed = Task.leaveAll calls past t ∧ v.current < n ∧ n < v.versions.length ∧
      rest.on ⟨v.version n, supply⟩ =
        Program.on (calls i).program ⟨Task.leaveAll calls past t, (calls i).supply⟩
  | .settled r => ∃ past, granted = past ++ [i] ∧ v.busy = true ∧
      v.committed = Task.leaveAll calls granted t ∧ r = (calls i).outcome (Task.leaveAll calls past t)
  | .released r => ∃ past later, granted = past ++ i :: later ∧
      r = (calls i).outcome (Task.leaveAll calls past t)
  | .reading n _ rest => i ∉ granted ∧ (calls i).writes = false ∧ n ≤ v.current ∧
      Program.Looks rest
  | .returned r => (calls i).writes = true → ∃ past later, granted = past ++ i :: later ∧
      r = (calls i).answer (Task.leaveAll calls past t)

/-- The invariant of traffic that started with tables `t`. -/
structure Orderly (t : Tables) (s : Traffic calls) : Prop where
  inRange : s.tables.current < s.tables.versions.length
  distinct : s.granted.Nodup
  writers : ∀ i ∈ s.granted, (calls i).writes = true
  free : s.tables.busy = false → s.tables.committed = Task.leaveAll calls s.granted t
  held : s.tables.busy = true → ∃ i, (s.stage i).hasLock
  fits : ∀ i, Fits calls t s.tables s.granted i (s.stage i)

section Fits

variable {t : Tables} {v v' : VersionedTables} {granted : List ι} {i j : ι}
  {stage : Stage (calls i).Result}

/-- A call that has the lock is the last that was given it. -/
theorem Fits.last (h : Fits calls t v granted i stage) (hlock : stage.hasLock) :
    v.busy = true ∧ granted.getLast? = some i := by
  cases stage with
  | locked | inside | settled =>
    obtain ⟨past, rfl, hbusy, -⟩ := h
    exact ⟨hbusy, by simp⟩
  | idle | released | reading | returned => exact hlock.elim

/-- What a call without the lock is about survives all that others do. -/
theorem Fits.mono (h : Fits calls t v granted i stage) (hlock : ¬ stage.hasLock)
    (hcurrent : v.current ≤ v'.current) {more : List ι} (hi : i ∉ more) :
    Fits calls t v' (granted ++ more) i stage := by
  have hmore : ∀ {past later : List ι}, granted = past ++ i :: later →
      granted ++ more = past ++ i :: (later ++ more) := by
    rintro past later rfl
    simp
  cases stage with
  | idle => exact fun hm => (List.mem_append.mp hm).elim h hi
  | locked | inside | settled => exact (hlock trivial).elim
  | released r =>
    obtain ⟨past, later, hpast, hr⟩ := h
    exact ⟨past, later ++ more, hmore hpast, hr⟩
  | reading n supply rest =>
    obtain ⟨hgranted, hreads, hn, hlooks⟩ := h
    exact ⟨fun hm => (List.mem_append.mp hm).elim hgranted hi, hreads, Nat.le_trans hn hcurrent, hlooks⟩
  | returned r =>
    intro hwrites
    obtain ⟨past, later, hpast, hr⟩ := h hwrites
    exact ⟨past, later ++ more, hmore hpast, hr⟩

end Fits

namespace Orderly

variable {t : Tables} {s s' : Traffic calls} {i : ι}

theorem opening {v : VersionedTables} (hfree : v.busy = false)
    (hv : v.current < v.versions.length) : Orderly v.committed (opening calls v) where
  inRange := hv
  distinct := List.nodup_nil
  writers := fun _ hi => (List.not_mem_nil hi).elim
  free := fun _ => rfl
  held := fun hbusy => absurd (hfree.symm.trans hbusy) Bool.false_ne_true
  fits := fun _ => List.not_mem_nil

/-- Two calls never have the lock at once. -/
theorem eq_of_hasLock (h : s.Orderly t) {j : ι} (hi : (s.stage i).hasLock)
    (hj : (s.stage j).hasLock) : j = i := by
  have hlast := ((h.fits i).last hi).2
  rw [((h.fits j).last hj).2] at hlast
  exact Option.some.inj hlast

/-- A request that only looks leaves all versions as they are. -/
theorem write_of_looks (h : s.Orderly t) {n : Nat} (hn : n ≤ s.tables.current) {q : StoreCall}
    (hq : q.Looks) (supply : Supply) :
    s.tables.write n (q.run ⟨s.tables.version n, supply⟩).2.tables = s.tables := by
  obtain ⟨look, hlook⟩ := hq
  rw [hlook]
  exact VersionedTables.write_version (Nat.lt_of_le_of_lt hn h.inRange)

variable [DecidableEq ι]

/-- A step that leaves the tables alone and neither takes nor gives up the lock. -/
theorem quiet (h : s.Orderly t) {old stage : Stage (calls i).Result} (hold : s.stage i = old)
    (hlock : stage.hasLock ↔ old.hasLock) (own : Fits calls t s.tables s.granted i stage) :
    (s.moved i stage s.tables).Orderly t where
  inRange := h.inRange
  distinct := h.distinct
  writers := h.writers
  free := h.free
  held := by
    intro hbusy
    obtain ⟨j, hj⟩ := h.held hbusy
    refine ⟨j, ?_⟩
    by_cases hji : j = i
    · subst hji
      rw [stage_moved_self, hlock, ← hold]
      exact hj
    · rwa [stage_moved_of_ne hji]
  fits := by
    intro j
    by_cases hji : j = i
    · subst hji
      rw [stage_moved_self]
      exact own
    · rw [stage_moved_of_ne hji]
      exact h.fits j

/-- A step of the call that has the lock. The others only need the committed version not to go
back. -/
theorem byHolder (h : s.Orderly t) (hi : (s.stage i).hasLock) {stage : Stage (calls i).Result}
    {v : VersionedTables} (inRange : v.current < v.versions.length)
    (hcurrent : s.tables.current ≤ v.current)
    (free : v.busy = false → v.committed = Task.leaveAll calls s.granted t)
    (held : v.busy = true → stage.hasLock) (own : Fits calls t v s.granted i stage) :
    (s.moved i stage v).Orderly t where
  inRange := inRange
  distinct := h.distinct
  writers := h.writers
  free := free
  held := by
    intro hbusy
    refine ⟨i, ?_⟩
    rw [stage_moved_self]
    exact held hbusy
  fits := by
    intro j
    by_cases hji : j = i
    · subst hji
      rw [stage_moved_self]
      exact own
    · rw [stage_moved_of_ne hji]
      have hj : ¬ (s.stage j).hasLock := fun hj => hji (h.eq_of_hasLock hi hj)
      have hfits := (h.fits j).mono hj hcurrent (List.not_mem_nil (a := j))
      rwa [List.append_nil] at hfits

/-- A step of the call that has the lock, after which it still has it. -/
theorem holding (h : s.Orderly t) {old stage : Stage (calls i).Result} (hold : s.stage i = old)
    (hi : old.hasLock) (hstage : stage.hasLock) {v : VersionedTables}
    (inRange : v.current < v.versions.length) (hcurrent : s.tables.current ≤ v.current)
    (own : Fits calls t v s.granted i stage) : (s.moved i stage v).Orderly t := by
  refine h.byHolder (by rwa [hold]) inRange hcurrent (fun hfree => ?_) (fun _ => hstage) own
  have hbusy := (own.last hstage).1
  exact absurd (hfree.symm.trans hbusy) Bool.false_ne_true

/-- The lock is given to a call that has not started yet. -/
theorem grantedTo (h : s.Orderly t) (hidle : s.stage i = .idle)
    (hwrites : (calls i).writes = true) (hfree : s.tables.busy = false) :
    (s.grantedTo i).Orderly t where
  inRange := h.inRange
  distinct := by
    have hnew : i ∉ s.granted := by
      have hfits := h.fits i
      rwa [hidle] at hfits
    exact List.nodup_append.mpr ⟨h.distinct, List.nodup_singleton i, by
      rintro a ha b hb rfl
      exact hnew (List.mem_singleton.mp hb ▸ ha)⟩
  writers := by
    intro j hj
    rcases List.mem_append.mp hj with hj | hj
    · exact h.writers j hj
    · rwa [List.mem_singleton.mp hj]
  free := fun hbusy => absurd hbusy.symm Bool.false_ne_true
  held := fun _ => ⟨i, by rw [stage_grantedTo_self]; trivial⟩
  fits := by
    intro j
    by_cases hji : j = i
    · subst hji
      rw [stage_grantedTo_self]
      exact ⟨s.granted, rfl, rfl, h.free hfree⟩
    · rw [stage_grantedTo_of_ne hji]
      have hj : ¬ (s.stage j).hasLock := by
        intro hj
        have hbusy := ((h.fits j).last hj).1
        rw [hfree] at hbusy
        cases hbusy
      have hcurrent : s.tables.current ≤ s.tables.lock.current := Nat.le_refl _
      exact (h.fits j).mono hj hcurrent (mt List.mem_singleton.mp hji)

/-- **Every step keeps the order.** -/
theorem step (h : s.Orderly t) (hs : Step i s s') : s'.Orderly t := by
  have hfits := h.fits i
  cases hs with
  | lock hidle hwrites hfree => exact h.grantedTo hidle hwrites hfree
  | copy hstage =>
    rw [hstage] at hfits
    obtain ⟨past, hpast, hbusy, hcommitted⟩ := hfits
    have hlength := VersionedTables.length_copy s.tables
    have hcopied := VersionedTables.committed_copy h.inRange
    -- the new version is a copy of what is committed, so the whole dialogue starts on it
    refine h.holding hstage trivial (by trivial) ?_ (Nat.le_refl _) ?_
    · exact hlength ▸ Nat.lt_succ_of_lt h.inRange
    · refine ⟨past, hpast, hbusy, hcopied.trans hcommitted, h.inRange,
        hlength ▸ Nat.lt_succ_self _, ?_⟩
      rw [VersionedTables.version_copy_self, hcommitted]
  | @ask n supply q next hstage =>
    rw [hstage] at hfits
    obtain ⟨past, hpast, hbusy, hcommitted, hcurrent, hn, hrest⟩ := hfits
    have hkept := VersionedTables.committed_write_of_ne (v := s.tables) (Nat.ne_of_gt hcurrent)
      (q.run ⟨s.tables.version n, supply⟩).2.tables
    have hlength := VersionedTables.length_write n
      (q.run ⟨s.tables.version n, supply⟩).2.tables s.tables
    refine h.holding hstage trivial (by trivial) (hlength ▸ h.inRange) (Nat.le_refl _) ?_
    refine ⟨past, hpast, hbusy, hkept.trans hcommitted, hcurrent, hlength ▸ hn, ?_⟩
    rw [VersionedTables.version_write_self s.tables hn, ← hrest, Program.on_ask]
  | note hstage =>
    rw [hstage] at hfits
    obtain ⟨past, hpast, hbusy, hcommitted, hcurrent, hn, hrest⟩ := hfits
    rw [Program.on_note] at hrest
    exact h.quiet hstage Iff.rfl ⟨past, hpast, hbusy, hcommitted, hcurrent, hn, hrest⟩
  | @commit n supply a hstage =>
    rw [hstage] at hfits
    obtain ⟨past, hpast, hbusy, hcommitted, hcurrent, hn, hrest⟩ := hfits
    have houtcome : (calls i).outcome (Task.leaveAll calls past t) = .ok a :=
      (congrArg Prod.fst hrest).symm
    refine h.holding hstage trivial (by trivial) hn (Nat.le_of_lt hcurrent) ?_
    refine ⟨past, hpast, hbusy, ?_, houtcome.symm⟩
    -- what the version holds by now is what the call leaves by itself
    rw [hpast, Task.leaveAll_concat, Task.leaves, houtcome, ← hrest]
    rfl
  | @giveUp n supply f hstage =>
    rw [hstage] at hfits
    obtain ⟨past, hpast, hbusy, hcommitted, hcurrent, hn, hrest⟩ := hfits
    have houtcome : (calls i).outcome (Task.leaveAll calls past t) = .error f :=
      (congrArg Prod.fst hrest).symm
    refine h.quiet hstage Iff.rfl ⟨past, hpast, hbusy, ?_, houtcome.symm⟩
    -- a call that fails leaves what was committed before it
    rw [hpast, Task.leaveAll_concat, Task.leaves, houtcome, hcommitted]
    rfl
  | unlock hstage =>
    rw [hstage] at hfits
    obtain ⟨past, hpast, -, hcommitted, hr⟩ := hfits
    have hlock : (s.stage i).hasLock := by rw [hstage]; trivial
    refine h.byHolder hlock h.inRange (Nat.le_refl _) (fun _ => hcommitted) ?_ ⟨past, [], hpast, hr⟩
    intro hbusy
    exact absurd hbusy Bool.false_ne_true
  | conclude hstage =>
    rw [hstage] at hfits
    obtain ⟨past, later, hpast, rfl⟩ := hfits
    exact h.quiet hstage Iff.rfl fun _ => ⟨past, later, hpast, rfl⟩
  | look hstage hreads =>
    rw [hstage] at hfits
    have hlooks : Program.Looks (calls i).program := by
      cases hcall : calls i with
      | command k => simp [hcall, Task.writes] at hreads
      | query q supply => exact q.looks_program
    exact h.quiet hstage Iff.rfl ⟨hfits, hreads, Nat.le_refl _, hlooks⟩
  | @read n supply q next hstage =>
    rw [hstage] at hfits
    obtain ⟨hgranted, hreads, hn, hq, hnext⟩ := hfits
    rw [h.write_of_looks hn hq]
    exact h.quiet hstage Iff.rfl ⟨hgranted, hreads, hn, hnext _⟩
  | skip hstage =>
    rw [hstage] at hfits
    obtain ⟨hgranted, hreads, hn, hrest⟩ := hfits
    exact h.quiet hstage Iff.rfl ⟨hgranted, hreads, hn, hrest⟩
  | answer hstage =>
    rw [hstage] at hfits
    obtain ⟨-, hreads, -⟩ := hfits
    refine h.quiet hstage Iff.rfl fun hwrites => ?_
    rw [hreads] at hwrites
    cases hwrites

theorem leads (h : s.Orderly t) (hs : s.Leads s') : s'.Orderly t := by
  induction hs with
  | refl => exact h
  | tail _ hstep ih =>
    obtain ⟨i, hi⟩ := hstep
    exact ih.step hi

end Orderly

/-! ## Calls that read -/

/-- The answer of a call that reads is settled: it is the one on tables `t`. -/
def Answers (t : Tables) (v : VersionedTables) (i : ι) : Stage (calls i).Result → Prop
  | .reading n supply rest =>
    (rest.on ⟨v.version n, supply⟩).1 = (calls i).outcome t
  | .returned r => r = (calls i).answer t
  | _ => False

section Answers

variable {t t' : Tables} {s s' : Traffic calls} {i j : ι}

theorem Answers.of_version_eq {v v' : VersionedTables} {stage : Stage (calls i).Result}
    (h : Answers t v i stage)
    (hsame : ∀ n supply rest, stage = .reading n supply rest → v'.version n = v.version n) :
    Answers t v' i stage := by
  cases stage with
  | reading n supply rest =>
    show (rest.on ⟨v'.version n, supply⟩).1 = _
    rw [hsame n supply rest rfl]
    exact h
  | returned r => exact h
  | idle | locked | inside | settled | released => exact h.elim

variable [DecidableEq ι]

/-- No step touches the version of a call that reads. -/
theorem Step.version_eq (hs : Step j s s') (h : s.Orderly t) {n : Nat}
    (hn : n ≤ s.tables.current) : s'.tables.version n = s.tables.version n := by
  have hfits := h.fits j
  cases hs with
  | copy hstage =>
    exact VersionedTables.version_copy_of_lt (Nat.lt_of_le_of_lt hn h.inRange)
  | ask hstage =>
    rw [hstage] at hfits
    obtain ⟨past, -, -, -, hcurrent, -⟩ := hfits
    -- the version that is written to lies behind the committed one
    have hlt := Nat.lt_of_le_of_lt hn hcurrent
    exact VersionedTables.version_write_of_ne (Nat.ne_of_gt hlt) _ _
  | read hstage =>
    rw [hstage] at hfits
    obtain ⟨-, -, hcurrent, hq, -⟩ := hfits
    exact congrArg (fun v => v.version n) (h.write_of_looks hcurrent hq _)
  | lock | note | commit | giveUp | unlock | conclude | look | skip | answer => rfl

/-- Once a call that reads has taken hold of tables, its answer is settled. -/
theorem Answers.step (hanswers : Answers t' s.tables i (s.stage i)) (h : s.Orderly t)
    (hs : Step j s s') : Answers t' s'.tables i (s'.stage i) := by
  by_cases hij : i = j
  · subst hij
    have hfits := h.fits i
    cases hs with
    | read hstage =>
      rw [hstage] at hfits hanswers
      obtain ⟨-, -, hn, ⟨look, hlook⟩, -⟩ := hfits
      have hsame := h.write_of_looks hn ⟨look, hlook⟩
      rw [stage_moved_self, tables_moved, hsame]
      simpa only [Answers, Program.on_ask, hlook] using hanswers
    | skip hstage =>
      rw [hstage] at hanswers
      rw [stage_moved_self, tables_moved]
      simpa only [Answers, Program.on_note] using hanswers
    | answer hstage =>
      rw [hstage] at hanswers
      rw [stage_moved_self]
      simp only [Answers, Program.on_ofExcept] at hanswers ⊢
      rw [hanswers, Task.answer]
    | lock hstage | copy hstage | ask hstage | note hstage | commit hstage | giveUp hstage
    | unlock hstage | conclude hstage | look hstage =>
      rw [hstage] at hanswers
      exact hanswers.elim
  · rw [hs.stage_of_ne hij]
    refine hanswers.of_version_eq fun n supply rest hreading => ?_
    have hfits := h.fits i
    rw [hreading] at hfits
    exact hs.version_eq h hfits.2.2.1

theorem Answers.leads (hanswers : Answers t' s.tables i (s.stage i)) (h : s.Orderly t)
    (hs : s.Leads s') : Answers t' s'.tables i (s'.stage i) := by
  induction hs with
  | refl => exact hanswers
  | tail hpast hstep ih =>
    obtain ⟨j, hj⟩ := hstep
    exact ih.step (h.leads hpast) hj

theorem Answers.looking (i : ι) (s : Traffic calls) :
    Answers s.tables.committed (s.looking i).tables i ((s.looking i).stage i) := by
  rw [Traffic.looking, stage_moved_self]
  rfl

end Answers

/-- A call that reads and has returned had taken hold of tables before. -/
theorem exists_looking [DecidableEq ι] {i : ι} {s₀ s : Traffic calls} (hs : s₀.Leads s)
    (hstart : s₀.stage i = .idle) (hreads : (calls i).writes = false) :
    s.stage i = .idle ∨
      ∃ s₁, s₀.Leads s₁ ∧ s₁.stage i = .idle ∧ (s₁.looking i).Leads s := by
  induction hs with
  | refl => exact Or.inl hstart
  | @tail s s' hpast hstep ih =>
    obtain ⟨j, hj⟩ := hstep
    rcases ih with hidle | ⟨s₁, hbefore, hidle, hafter⟩
    · by_cases hij : i = j
      · subst hij
        cases hj with
        | look => exact Or.inr ⟨s, hpast, hidle, .refl⟩
        | lock _ hwrites =>
          rw [hreads] at hwrites
          cases hwrites
        | copy hstage | ask hstage | note hstage | commit hstage | giveUp hstage
        | unlock hstage | conclude hstage | read hstage | skip hstage | answer hstage =>
          rw [hidle] at hstage
          cases hstage
      · exact Or.inl (by rw [hj.stage_of_ne hij, hidle])
    · exact Or.inr ⟨s₁, hbefore, hidle, hafter.tail ⟨j, hj⟩⟩

/-! ## Nobody waits for ever -/

section Ends

variable [DecidableEq ι]

/-- A call can go on to its end while the others stand still. -/
structure Ends (i : ι) (s s' : Traffic calls) : Prop where
  leads : s.Leads s'
  returned : ∃ r, s'.stage i = .returned r
  others : ∀ j, j ≠ i → s'.stage j = s.stage j

variable {t : Tables} {s s' s₁ : Traffic calls} {i : ι}

theorem Ends.of_returned (h : ∃ r, s.stage i = .returned r) : Ends i s s := ⟨.refl, h, fun _ _ => rfl⟩

theorem Step.ends (hs : Step i s s₁) (h : Ends i s₁ s') : Ends i s s' where
  leads := .head ⟨i, hs⟩ h.leads
  returned := h.returned
  others := fun j hj => (h.others j hj).trans (hs.stage_of_ne hj)

theorem exists_ends_of_released {r : Except Failure (calls i).Result}
    (h : s.stage i = .released r) : ∃ s', Ends i s s' :=
  ⟨_, (Step.conclude h).ends (.of_returned ⟨_, stage_moved_self _ _ _ _⟩)⟩

theorem exists_ends_of_settled {r : Except Failure (calls i).Result}
    (h : s.stage i = .settled r) : ∃ s', Ends i s s' := by
  obtain ⟨s', hs'⟩ := exists_ends_of_released (stage_moved_self i (.released r) s.tables.unlock s)
  exact ⟨s', (Step.unlock h).ends hs'⟩

theorem exists_ends_of_inside {n : Nat} {supply : Supply} {rest : Program (calls i).Result}
    (h : s.stage i = .inside n supply rest) : ∃ s', Ends i s s' := by
  induction rest generalizing s supply with
  | done a =>
    obtain ⟨s', hs'⟩ := exists_ends_of_settled (stage_moved_self i (.settled (.ok a)) _ s)
    exact ⟨s', (Step.commit h).ends hs'⟩
  | fail f =>
    obtain ⟨s', hs'⟩ := exists_ends_of_settled (stage_moved_self i (.settled (.error f)) _ s)
    exact ⟨s', (Step.giveUp h).ends hs'⟩
  | note e rest ih =>
    obtain ⟨s', hs'⟩ := ih (stage_moved_self i (.inside n supply rest) s.tables s)
    exact ⟨s', (Step.note h).ends hs'⟩
  | ask q next ih =>
    obtain ⟨s', hs'⟩ := ih _ (stage_moved_self i (.inside n _ _) _ s)
    exact ⟨s', (Step.ask h).ends hs'⟩

/-- The call that has the lock can always go on to its end. -/
theorem exists_ends_of_hasLock (h : (s.stage i).hasLock) : ∃ s', Ends i s s' := by
  cases hstage : s.stage i with
  | locked =>
    obtain ⟨s', hs'⟩ := exists_ends_of_inside
      (stage_moved_self i (.inside s.tables.versions.length _ _) s.tables.copy s)
    exact ⟨s', (Step.copy hstage).ends hs'⟩
  | inside n supply rest => exact exists_ends_of_inside hstage
  | settled r => exact exists_ends_of_settled hstage
  | idle | released | reading | returned =>
    rw [hstage] at h
    exact h.elim

theorem exists_ends_of_reading {n : Nat} {supply : Supply} {rest : Program (calls i).Result}
    (h : s.stage i = .reading n supply rest) : ∃ s', Ends i s s' := by
  induction rest generalizing s supply with
  | done a => exact ⟨_, (Step.answer (r := .ok a) h).ends (.of_returned ⟨_, stage_moved_self _ _ _ _⟩)⟩
  | fail f =>
    exact ⟨_, (Step.answer (r := .error f) h).ends (.of_returned ⟨_, stage_moved_self _ _ _ _⟩)⟩
  | note e rest ih =>
    obtain ⟨s', hs'⟩ := ih (stage_moved_self i (.reading n supply rest) s.tables s)
    exact ⟨s', (Step.skip h).ends hs'⟩
  | ask q next ih =>
    obtain ⟨s', hs'⟩ := ih _ (stage_moved_self i (.reading n _ _) _ s)
    exact ⟨s', (Step.read h).ends hs'⟩

/-- When the call that has the lock has come to its end, the lock is free. -/
theorem Ends.free (h : s.Orderly t) (hi : (s.stage i).hasLock) (hends : Ends i s s') :
    s'.tables.busy = false := by
  by_contra hbusy
  obtain ⟨j, hj⟩ := (h.leads hends.leads).held (by simpa using hbusy)
  obtain ⟨r, hdone⟩ := hends.returned
  have hji : j ≠ i := by
    rintro rfl
    rw [hdone] at hj
    exact hj
  rw [hends.others j hji] at hj
  exact hji (h.eq_of_hasLock hi hj)

/-- Every call can be brought to its end. -/
theorem Orderly.exists_returned (h : s.Orderly t) (i : ι) :
    ∃ s', s.Leads s' ∧ ∃ r, s'.stage i = .returned r := by
  have hends : ∀ {s : Traffic calls}, (∃ s', Ends i s s') →
      ∃ s', s.Leads s' ∧ ∃ r, s'.stage i = .returned r := by
    rintro s ⟨s', hs'⟩
    exact ⟨s', hs'.leads, hs'.returned⟩
  -- with the lock free, a call that has not started yet can go through all of its stages
  have hfirst : ∀ {s : Traffic calls}, s.stage i = .idle → (calls i).writes = true →
      s.tables.busy = false → ∃ s', s.Leads s' ∧ ∃ r, s'.stage i = .returned r := by
    intro s hidle hwrites hfree
    have hlocked : ((s.grantedTo i).stage i).hasLock := by
      rw [stage_grantedTo_self]
      trivial
    obtain ⟨s', hs'⟩ := exists_ends_of_hasLock hlocked
    exact hends ⟨s', (Step.lock hidle hwrites hfree).ends hs'⟩
  cases hstage : s.stage i with
  | locked | inside | settled =>
    exact hends (exists_ends_of_hasLock (by rw [hstage]; trivial))
  | released r => exact hends (exists_ends_of_released hstage)
  | reading n supply rest => exact hends (exists_ends_of_reading hstage)
  | returned r => exact ⟨s, .refl, r, hstage⟩
  | idle =>
    cases hwrites : (calls i).writes with
    | false =>
      obtain ⟨s', hs'⟩ := exists_ends_of_reading (stage_moved_self i (.reading _ _ _) _ s)
      exact hends ⟨s', (Step.look hstage hwrites).ends hs'⟩
    | true =>
      cases hbusy : s.tables.busy with
      | false => exact hfirst hstage hwrites hbusy
      | true =>
        -- somebody else has the lock: he comes to his end first, and the lock is free then
        obtain ⟨j, hj⟩ := h.held hbusy
        obtain ⟨s₁, hs₁⟩ := exists_ends_of_hasLock hj
        have hne : i ≠ j := by
          rintro rfl
          rw [hstage] at hj
          exact hj
        have hidle := (hs₁.others i hne).trans hstage
        obtain ⟨s', hs', hdone⟩ := hfirst hidle hwrites (hs₁.free h hj)
        exact ⟨s', hs₁.leads.trans hs', hdone⟩

theorem Orderly.exists_all_returned (h : s.Orderly t) (is : List ι) :
    ∃ s', s.Leads s' ∧ ∀ i ∈ is, ∃ r, s'.stage i = .returned r := by
  induction is generalizing s with
  | nil => exact ⟨s, .refl, by simp⟩
  | cons i is ih =>
    obtain ⟨s₁, hs₁, r, hr⟩ := h.exists_returned i
    obtain ⟨s₂, hs₂, hall⟩ := ih (h.leads hs₁)
    refine ⟨s₂, hs₁.trans hs₂, ?_⟩
    intro j hj
    rcases List.mem_cons.mp hj with rfl | hj
    · exact ⟨r, hs₂.returned hr⟩
    · exact hall j hj

end Ends

/-! ## The main statement -/

variable [DecidableEq ι] {name : String} {v : VersionedTables} {s : Traffic calls}

/-- **Calls next to each other are calls one after the other.** However the scheduler switches
between the calls, the commands answer and leave what they answer and leave when they are made by
themselves in the order in which they were given the lock. A query has taken hold of the tables
that were committed at one moment, and answers what it answers on them by itself, whatever
happened since. And no call is ever kept from its end. -/
theorem serializable (hfree : v.busy = false) (hv : v.current < v.versions.length)
    (hs : (opening calls v).Leads s) :
    s.granted.Nodup ∧ (∀ i ∈ s.granted, (calls i).writes = true) ∧
    (∀ session : Session, session.Rests name v.committed → ∃ answers session',
      (Task.makeAll name calls s.granted).run session = some (answers, session') ∧
      answers.map Sigma.fst = s.granted ∧
      (∀ i r, (calls i).writes = true → s.stage i = .returned r → ⟨i, r⟩ ∈ answers) ∧
      ((∀ i ∈ s.granted, ∃ r, s.stage i = .returned r) → session'.Rests name s.tables.committed)) ∧
    (∀ i r, (calls i).writes = false → s.stage i = .returned r →
      (∃ s₁, (opening calls v).Leads s₁ ∧ s₁.stage i = .idle ∧ (s₁.looking i).Leads s) ∧
      ∀ s₁, (opening calls v).Leads s₁ → s₁.stage i = .idle → (s₁.looking i).Leads s →
        ∀ session : Session, session.Rests name s₁.tables.committed →
          ∃ session', ((calls i).make name).run session = some (r, session')) ∧
    ∀ is : List ι, ∃ s', s.Leads s' ∧ ∀ i ∈ is, ∃ r, s'.stage i = .returned r := by
  have hstart : (opening calls v).Orderly v.committed := .opening hfree hv
  have h := hstart.leads hs
  refine ⟨h.distinct, h.writers, ?_, ?_, h.exists_all_returned⟩
  · intro session hsession
    obtain ⟨session', hrun, hsession'⟩ := Task.makeAll_rests calls s.granted hsession
    refine ⟨_, session', hrun, Task.map_fst_answerAll _ _, ?_, ?_⟩
    · intro i r hwrites hdone
      have hfits := h.fits i
      rw [hdone] at hfits
      obtain ⟨past, later, hgranted, rfl⟩ := hfits hwrites
      rw [hgranted]
      exact Task.mem_answerAll past i later v.committed
    · intro hall
      have hidle : s.tables.busy = false := by
        by_contra hbusy
        obtain ⟨i, hi⟩ := h.held (by simpa using hbusy)
        obtain ⟨past, hpast⟩ := List.getLast?_eq_some_iff.mp ((h.fits i).last hi).2
        obtain ⟨r, hr⟩ := hall i (by simp [hpast])
        rw [hr] at hi
        exact hi
      rw [h.free hidle]
      exact hsession'
  · intro i r hreads hdone
    constructor
    · rcases exists_looking hs rfl hreads with hidle | hlooked
      · rw [hidle] at hdone
        cases hdone
      · exact hlooked
    · intro s₁ hbefore hidle hafter session hsession
      have h₁ := hstart.leads hbefore
      have hlooking := h₁.step (.look hidle hreads)
      have hanswers := (Answers.looking i s₁).leads hlooking hafter
      rw [hdone] at hanswers
      obtain ⟨session', hrun, -⟩ := (calls i).make_rests hsession
      exact ⟨session', hanswers ▸ hrun⟩

/-- A team is created, a pull request is opened and the team is asked for, all at once. -/
def bustle : Fin 3 → Task
  | 0 => .command Call.founding
  | 1 => .command Call.opening
  | 2 => .query (.team "core") default

theorem serializable_bustle :
    ∃ (s : Traffic bustle) (answers : List ((i : Fin 3) × Except Failure (bustle i).Result))
      (session : Session), (opening bustle {}).Leads s ∧ (∀ i, ∃ r, s.stage i = .returned r) ∧
      (Task.makeAll "rota" bustle s.granted).run (.holding "rota" .empty default) =
        some (answers, session) ∧ session.Rests "rota" s.tables.committed := by
  have hv : ({} : VersionedTables).current < ({} : VersionedTables).versions.length :=
    Nat.zero_lt_one
  have hstart : (opening bustle {}).Orderly .empty := .opening rfl hv
  obtain ⟨s, hs, hdone⟩ := hstart.exists_all_returned (List.finRange 3)
  obtain ⟨-, -, hcommands, -⟩ := serializable rfl hv hs
  obtain ⟨answers, session, hrun, -, -, hrests⟩ :=
    hcommands _ (Session.rests_holding "rota" .empty default)
  exact ⟨s, answers, session, hs, fun i => hdone i (List.mem_finRange i), hrun,
    hrests fun i _ => hdone i (List.mem_finRange i)⟩

end Traffic

end ReviewRota
