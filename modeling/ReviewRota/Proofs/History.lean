import ReviewRota.Proofs.Calls

/-!
# Histories

A history is a finite sequence of calls, each with the clock and the identifiers that it is handed,
that takes tables to tables. The calls are made in sessions, at rest or inside open transactions,
and every call finds what the one before it left. Along a history the tables either stay as they
are or change in one of the listed ways, so that what changes preserve holds from then on; the
first consequence is the integrity of all tables with a history from the empty ones.
-/

namespace ReviewRota

/-- A command with what the surroundings hand out to it. -/
structure Call where
  command : Command
  supply : Supply

namespace Call

/-- What the clock shows to a call. -/
def reading (k : Call) : Instant := k.supply.readClock.1

/-- What the surroundings of a call see to. -/
def Proper (k : Call) (t : Tables) : Prop := k.command.Proper ⟨t, k.supply⟩

/-- Make a call in a session. -/
def make (name : String) (k : Call) : Course (Except Failure k.command.Result) := do
  modify fun s => { s with supply := k.supply }
  Course.command name k.command

/-- What a call answers. -/
def answer (k : Call) (t : Tables) : Except Failure k.command.Result :=
  (k.command.program.on ⟨t, k.supply⟩).1

/-- What a call makes of tables. -/
def after (k : Call) (t : Tables) : Tables := (k.command.program.on ⟨t, k.supply⟩).2.tables

variable {name : String} {k : Call} {t t' : Tables} {s s' : Session}

theorem make_finds (hs : s.Finds name t) (hi : t.Integrity) (hp : k.Proper t) :
    ∃ s', (k.make name).run s = some (k.answer t, s') ∧ s'.Finds name (k.after t) := by
  have hs' : Session.Finds name t { s with supply := k.supply } := by
    cases hs with
    | rests h => exact .rests ⟨h.tables, h.outside, h.faultless⟩
    | joins h => exact .joins ⟨h.tables, h.faultless⟩
  exact Course.command_finds hs' hi hp

/-- A call that was made gave this answer and left these tables. -/
theorem eq_of_made (hs : s.Finds name t) (hi : t.Integrity) (hp : k.Proper t)
    {r : Except Failure k.command.Result} (made : (k.make name).run s = some (r, s'))
    (hs' : s'.Finds name t') : r = k.answer t ∧ t' = k.after t := by
  obtain ⟨s'', hrun, hs''⟩ := make_finds hs hi hp
  rw [hrun] at made
  cases made
  exact ⟨rfl, hs'.unique hs''⟩

/-- A call leaves the tables as they are or makes one of the listed changes. -/
theorem after_eq_or_change (hi : t.Integrity) (hp : k.Proper t) :
    k.after t = t ∨ Tables.Change k.reading t (k.after t) := by
  unfold after
  cases Command.ends hi hp with
  | refused f h => exact Or.inl (by rw [h])
  | kept r e h => exact Or.inl (by rw [h])
  | changed r e w' h reported change => exact Or.inr (by rwa [h])

/-- A call that was made left the tables as they were or changed them in one of the listed ways. -/
theorem eq_or_change_of_made (hs : s.Finds name t) (hi : t.Integrity) (hp : k.Proper t)
    {r : Except Failure k.command.Result} (made : (k.make name).run s = some (r, s'))
    (hs' : s'.Finds name t') : t' = t ∨ Tables.Change k.reading t t' := by
  obtain ⟨-, rfl⟩ := eq_of_made hs hi hp made hs'
  exact after_eq_or_change hi hp

/-- A team of three is created, one of them inactive. -/
def founding : Call :=
  ⟨.createTeam ⟨"core",
    [⟨.ofNat 1, "ann", true⟩, ⟨.ofNat 2, "bob", true⟩, ⟨.ofNat 3, "cid", false⟩]⟩, default⟩

/-- One of the team opens a pull request. -/
def opening : Call := ⟨.openPullRequest (.ofNat 7) "fix" (.ofNat 1) [] usualReviewers, default⟩

theorem proper_founding : founding.Proper .empty := ⟨⟨by decide, by decide⟩, fun _ => rfl⟩

end Call

/-- The team of three when it has just been created. -/
def Roster.core : Roster :=
  ⟨⟨Supply.serial 1, "core"⟩, [⟨.ofNat 1, "ann", true, Supply.serial 1⟩,
    ⟨.ofNat 2, "bob", true, Supply.serial 1⟩, ⟨.ofNat 3, "cid", false, Supply.serial 1⟩]⟩

theorem Tables.usersOfTeam_founding :
    (Call.founding.after .empty).usersOfTeam (Supply.serial 1) = Roster.core.users := by
  -- the draft names the members in the order of their usernames
  refine (List.mergeSort_of_pairwise ?_).trans ?_
  · decide
  · decide

/-- The calls of a history take tables to tables. -/
inductive History (name : String) (t : Tables) : List Call → Tables → Prop where
  | start : History name t [] t
  | call {ks : List Call} {t₁ t₂ : Tables} {k : Call} {s s' : Session}
      {r : Except Failure k.command.Result} (past : History name t ks t₁)
      (before : s.Finds name t₁) (proper : k.Proper t₁)
      (made : (k.make name).run s = some (r, s')) (after : s'.Finds name t₂) :
      History name t (ks ++ [k]) t₂

namespace History

variable {name : String} {t t' t'' : Tables} {ks ks' : List Call}

theorem trans (h : History name t ks t') (h' : History name t' ks' t'') :
    History name t (ks ++ ks') t'' := by
  induction h' with
  | start => rwa [List.append_nil]
  | call past before proper made after ih =>
    rw [← List.append_assoc]
    exact .call ih before proper made after

/-- A history without calls changes nothing. -/
theorem eq_of_nil (h : History name t [] t') : t' = t := by
  generalize hls : [] = ls at h
  cases h with
  | start => rfl
  | call => exact absurd hls.symm (List.append_ne_nil_of_right_ne_nil _ (List.cons_ne_nil _ _))

/-- The first call of a history can be taken off. -/
theorem of_cons (hi : t.Integrity) {k : Call} (h : History name t (k :: ks) t') :
    History name (k.after t) ks t' := by
  -- histories grow at their end, so the induction takes the first call off all of them
  generalize hls : k :: ks = ls at h
  induction h generalizing ks with
  | start => cases hls
  | @call ls t₁ t₂ last s s' r past before proper made after ih =>
    cases ls with
    | nil =>
      obtain rfl : t₁ = t := past.eq_of_nil
      obtain ⟨rfl, rfl⟩ := List.cons.inj hls
      obtain ⟨-, rfl⟩ := Call.eq_of_made before hi proper made after
      exact .start
    | cons first rest =>
      obtain ⟨rfl, rfl⟩ := List.cons.inj hls
      exact .call (ih rfl) before proper made after

/-- What holds at the start and outlasts every change holds all along, next to the integrity. -/
theorem integrity_and {P : Tables → Prop} (h : History name t ks t') (hi : t.Integrity) (hP : P t)
    (hchange : ∀ {now t₁ t₂}, t₁.Integrity → Tables.Change now t₁ t₂ → P t₁ → P t₂) :
    t'.Integrity ∧ P t' := by
  -- the integrity is part of the invariant: without it nothing is known about the outcome of a call
  induction h with
  | start => exact ⟨hi, hP⟩
  | call past before proper made after ih =>
    obtain ⟨hi', hP'⟩ := ih
    rcases Call.eq_or_change_of_made before hi' proper made after with rfl | hc
    · exact ⟨hi', hP'⟩
    · exact ⟨hi'.change hc, hchange hi' hc hP'⟩

theorem integrity (h : History name t ks t') (hi : t.Integrity) : t'.Integrity := by
  have hboth := h.integrity_and (P := fun _ => True) hi trivial fun _ _ _ => trivial
  exact hboth.1

/-- What holds at the start and outlasts every change holds all along. -/
theorem preserves {P : Tables → Prop} (h : History name t ks t') (hi : t.Integrity) (hP : P t)
    (hchange : ∀ {now t₁ t₂}, t₁.Integrity → Tables.Change now t₁ t₂ → P t₁ → P t₂) : P t' :=
  (h.integrity_and hi hP hchange).2

/-- Every proper call can be made. -/
theorem extend (h : History name t ks t') (hi : t'.Integrity) {k : Call} (hp : k.Proper t') :
    History name t (ks ++ [k]) (k.after t') := by
  have hs := Session.rests_holding name t' k.supply
  obtain ⟨s', made, after⟩ := Call.make_finds (.rests hs) hi hp
  exact .call h (.rests hs) hp made after

open Call (founding opening proper_founding)

theorem history_founding (name : String) :
    History name .empty [founding] (founding.after .empty) :=
  History.start.extend Tables.integrity_empty proper_founding

theorem integrity_founding : (founding.after .empty).Integrity :=
  (history_founding "rota").integrity Tables.integrity_empty

/-- The second call of the example goes well. -/
theorem exists_opening : ∃ review p, opening.answer (founding.after .empty) = .ok review ∧
    (opening.after (founding.after .empty)).pullRequests.find? (.ofNat 7) = some p := by
  obtain ⟨ann, hid, hann⟩ : ∃ u : User, u.id = .ofNat 1 ∧
      (founding.after .empty).users.find? u.id = some u :=
    ⟨⟨.ofNat 1, "ann", true, Supply.serial 1⟩, rfl, rfl⟩
  have hfree : (founding.after .empty).pullRequests.find? (.ofNat 7) = none := rfl
  have hopen := Program.on_openPullRequest_new (w := ⟨founding.after .empty, default⟩)
    integrity_founding.coherent hann hfree "fix" [] usualReviewers
  rw [hid] at hopen
  have hafter : opening.after (founding.after .empty) = _ := congrArg (fun o => o.2.tables) hopen
  have hfind := congrArg (fun u : Tables => u.pullRequests.find? (.ofNat 7)) hafter
  exact ⟨_, _, congrArg Prod.fst hopen,
    hfind.trans ((Tables.find?_addPullRequest _ _ _).trans (if_pos rfl))⟩

/-- **Tables with a history from the empty ones are in good order.** -/
theorem integrity_of_empty (h : History name .empty ks t) : t.Integrity :=
  h.integrity Tables.integrity_empty

theorem integrity_after_opening :
    History "rota" .empty [founding, opening] (opening.after (founding.after .empty)) ∧
      (opening.after (founding.after .empty)).Integrity := by
  have hopened : History "rota" .empty [founding, opening] _ :=
    (history_founding "rota").extend integrity_founding rfl
  exact ⟨hopened, integrity_of_empty hopened⟩

end History

end ReviewRota
