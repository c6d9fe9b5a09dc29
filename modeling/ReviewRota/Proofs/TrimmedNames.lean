import ReviewRota.Proofs.Descriptions
import ReviewRota.Proofs.Service

/-!
# Trimmed names of teams

Teams get their names from drafts, and drafts are read with their names trimmed. Nothing else gives
a team a name, so no stored team ever has blanks at the ends of its name, whatever else was asked
for and whatever was handed out. The tables are called addressable when this holds and nothing in
them is ambiguous. Commands keep them so, and with the commands every request to the service.
-/

namespace ReviewRota

open Http

/-- Nothing is ambiguous, and no stored team has blanks at the ends of its name. -/
structure Tables.Addressable (t : Tables) : Prop where
  unambiguous : t.Unambiguous
  trimmed : ∀ k team, t.teams.find? k = some team → Text.trim team.name = team.name

theorem Tables.addressable_empty : Tables.Addressable .empty :=
  ⟨integrity_empty.unambiguous, fun _ _ h => nomatch h⟩

/-! ## Requests to the store -/

namespace StoreCall

/-- A team is created under a trimmed name, if one is created. -/
def Trims : StoreCall → Prop
  | createTeam name => Text.trim name = name
  | _ => True

/-- Only the creation of a team changes the teams. -/
theorem teams_run {q : StoreCall} (hq : ∀ name, q ≠ createTeam name) (w : World) :
    (q.run w).2.tables.teams = w.tables.teams := by
  cases q with
  | createTeam name => exact absurd rfl (hq name)
  | createUser username isActive teamId id? =>
    rw [run_createUser_eq]
    dsimp only
    repeat' split
    all_goals rfl
  | _ =>
    simp only [run]
    repeat' split
    all_goals rfl

theorem addressable_run {w : World} (h : w.tables.Addressable) {q : StoreCall} (hq : q.Trims) :
    (q.run w).2.tables.Addressable := by
  refine ⟨unambiguous_run h.unambiguous q, ?_⟩
  by_cases hcreates : ∃ name, q = createTeam name
  · obtain ⟨name, rfl⟩ := hcreates
    cases hname : w.tables.teamNamed? name with
    | some team =>
      rw [run_createTeam_named hname]
      exact h.trimmed
    | none =>
      rw [run_createTeam hname]
      intro k team hk
      rw [Ledger.find?_put] at hk
      split at hk
      · cases hk
        exact hq
      · exact h.trimmed k team hk
  · rw [teams_run (not_exists.mp hcreates)]
    exact h.trimmed

end StoreCall

/-! ## Commands -/

namespace Program

variable {α β : Type} {I : Tables → Prop}

/-- A call keeps to an invariant of the tables, whether it fails or not. -/
def Keeps (I : Tables → Prop) (p : Program α) : Prop :=
  ∀ w, I w.tables → I (p.on w).2.tables

theorem keeps_ofExcept (r : Except Failure α) : Keeps I (Dialogue.ofExcept r) := by
  intro w hw
  rwa [on_ofExcept]

theorem keeps_ask {q : StoreCall} {next : Except Failure q.Reply → Program α}
    (hq : ∀ w, I w.tables → I (q.run w).2.tables) (hnext : ∀ r, Keeps I (next r)) :
    Keeps I (.ask q next) := fun w hw => hnext _ _ (hq w hw)

theorem keeps_put {q : StoreCall} (hq : ∀ w, I w.tables → I (q.run w).2.tables) :
    Keeps I (StoreCall.put q) := keeps_ask hq fun _ => keeps_ofExcept _

theorem keeps_putOr {q : StoreCall} (hq : ∀ w, I w.tables → I (q.run w).2.tables)
    (reword : Failure → Failure) : Keeps I (StoreCall.putOr q reword) :=
  keeps_ask hq fun _ => keeps_ofExcept _

theorem Keeps.bind {p : Program α} {k : α → Program β} (hp : Keeps I p) (hk : ∀ a, Keeps I (k a)) :
    Keeps I (p >>= k) := by
  intro w hw
  have hmid := hp w hw
  cases hon : p.on w with
  | mk r w' =>
    rw [hon] at hmid
    cases r with
    | ok a =>
      rw [on_bind_of_ok hon]
      exact hk a w' hmid
    | error f =>
      rw [on_bind_of_error hon]
      exact hmid

theorem keeps_each {f : β → Program α} (hf : ∀ x, Keeps I (f x)) (xs : List β) :
    Keeps I (Dialogue.each f xs) := by
  induction xs with
  | nil => exact fun _ hw => hw
  | cons x xs ih => exact (hf x).bind fun _ => ih.bind fun _ _ hw => hw

end Program

/-- The team of a command has a trimmed name, if the command creates one. -/
def Command.Trims : Command → Prop
  | createTeam draft => Text.trim draft.teamName = draft.teamName
  | _ => True

open StoreCall Program in
/-- Every command keeps the tables addressable when the names that it brings are trimmed. -/
theorem Command.keeps_addressable {c : Command} (hc : c.Trims) :
    Keeps Tables.Addressable c.program := by
  have run : ∀ {q : StoreCall}, q.Trims → ∀ w : World, w.tables.Addressable →
      (q.run w).2.tables.Addressable := fun hq _ hw => addressable_run hw hq
  cases c with
  | createTeam draft =>
    -- the first request is the only one of all commands that brings the name of a team
    refine Keeps.bind (keeps_putOr (q := .createTeam _) (run hc) _) fun team => ?_
    refine Keeps.bind (keeps_each (fun m => keeps_ask (run (by trivial)) fun known => ?_) _)
      fun _ _ hw => hw
    split
    · exact keeps_putOr (run (by trivial)) _
    · split
      · exact keeps_putOr (run (by trivial)) _
      · exact fun _ hw => hw
  | setActive id isActive =>
    refine Keeps.bind (keeps_putOr (run (by trivial)) _) fun user => ?_
    exact Keeps.bind (keeps_put (run (by trivial))) fun _ _ hw => hw
  | openPullRequest id name authorId draws limit =>
    refine Keeps.bind (keeps_putOr (run (by trivial)) _) fun author => ?_
    refine Keeps.bind (keeps_putOr (run (by trivial)) _) fun pr => ?_
    refine Keeps.bind (keeps_put (run (by trivial))) fun teammates => ?_
    have hassign := fun user => keeps_put (q := .assign pr.id user) (run trivial)
    exact Keeps.bind (keeps_each hassign _) fun _ _ hw => hw
  | merge id =>
    refine Keeps.bind (keeps_putOr (run (by trivial)) _) fun pr => ?_
    split
    · exact fun _ hw => hw
    · exact keeps_putOr (run (by trivial)) _
  | reassign id old draws =>
    refine Keeps.bind (keeps_putOr (run (by trivial)) _) fun pr => ?_
    refine Keeps.bind (keeps_put (run (by trivial))) fun current => ?_
    refine Keeps.bind (keeps_ofExcept _) fun _ => ?_
    refine Keeps.bind (keeps_put (run (by trivial))) fun author => ?_
    refine Keeps.bind (keeps_put (run (by trivial))) fun teammates => ?_
    show Keeps _ (if List.isEmpty _ then _ else _)
    split
    · exact fun w hw => by rwa [on_note]
    · refine Keeps.bind (keeps_ofExcept _) fun new => ?_
      refine Keeps.bind (keeps_putOr (run (by trivial)) _) fun _ => ?_
      refine Keeps.bind (keeps_put (run (by trivial))) fun _ => ?_
      refine Keeps.bind (keeps_put (run (by trivial))) fun updated => ?_
      exact Keeps.bind (keeps_ofExcept _) fun _ _ hw => hw

/-! ## Requests to the service -/

namespace Course

variable {α β : Type} {I : Tables → Prop} {name : String}

/-- Whatever tables at rest meet an invariant, they do so again when the course comes to its end. -/
def Keeps (I : Tables → Prop) (name : String) (x : Course α) : Prop :=
  ∀ s t, s.Rests name t → I t → ∃ a s' t', x.run s = some (a, s') ∧ s'.Rests name t' ∧ I t'

theorem keeps_pure (a : α) : Keeps I name (pure a) := fun s t hs ht => ⟨a, s, t, rfl, hs, ht⟩

theorem Keeps.bind {x : Course α} {k : α → Course β} (hx : Keeps I name x)
    (hk : ∀ a, Keeps I name (k a)) : Keeps I name (x >>= k) := by
  intro s t hs ht
  obtain ⟨a, s₁, t₁, hrun, hs₁, ht₁⟩ := hx s t hs ht
  obtain ⟨b, s₂, t₂, hrest, hs₂, ht₂⟩ := hk a s₁ t₁ hs₁ ht₁
  exact ⟨b, s₂, t₂, run_bind_eq_some.mpr ⟨a, s₁, hrun, hrest⟩, hs₂, ht₂⟩

theorem keeps_command {c : Command} (hc : c.program.Keeps I) :
    Keeps I name ((desk name).command c) := by
  intro s t hs ht
  obtain ⟨s', hrun, hs'⟩ := Task.command_of_on (c := c) hs rfl
  refine ⟨_, s', _, hrun, hs', ?_⟩
  split
  · exact hc ⟨t, s.supply⟩ ht
  · exact ht

theorem keeps_query (q : Query) : Keeps I name ((desk name).query q) := by
  intro s t hs ht
  obtain ⟨s', hrun, hs'⟩ := Task.query_keeps hs q
  exact ⟨_, s', t, hrun, hs', ht⟩

variable {r : Http.Request}

theorem keeps_refuse (f : Failure) : Keeps I name (refuse (desk name) r f) := by
  intro s t hs ht
  obtain ⟨es, hrun⟩ := run_refuse name r f s
  exact ⟨_, _, t, hrun, hs.heard es, ht⟩

theorem keeps_answerReading {reading : Reading α} {go : α → Course Response}
    (hgo : ∀ a, reading = .value a → Keeps I name (go a)) :
    Keeps I name (answerReading (desk name) r reading go) := by
  cases reading with
  | value a => exact hgo a rfl
  | issues is =>
    unfold answerReading
    dsimp only
    split
    · exact keeps_pure _
    · exact keeps_refuse _
  | unreadable => exact keeps_pure _

theorem keeps_answerOutcome {outcome : Except Failure α} {go : α → Course Response}
    (hgo : ∀ a, Keeps I name (go a)) : Keeps I name (answerOutcome (desk name) r outcome go) := by
  cases outcome with
  | ok a => exact hgo a
  | error f => exact keeps_refuse f

theorem keeps_serveAt (e : Endpoint) (r : Http.Request) :
    Keeps Tables.Addressable name (serveAt (desk name) r e) := by
  have command : ∀ {c : Command}, c.Trims → Keeps Tables.Addressable name ((desk name).command c) :=
    fun hc => keeps_command (Command.keeps_addressable hc)
  cases e with
  | addTeam =>
    refine keeps_answerReading fun draft hread => ?_
    obtain ⟨j, -, hj⟩ := readBody_eq_value.mp hread
    have htrimmed := (TeamDraft.ofJson_eq_valid.mp hj).1.trim_teamName
    exact (command (c := .createTeam draft) htrimmed).bind fun _ =>
      keeps_answerOutcome fun _ => keeps_pure _
  | getTeam =>
    refine keeps_answerReading fun teamName _ => (keeps_query _).bind fun _ => ?_
    exact keeps_answerOutcome fun _ => keeps_pure _
  | setActive =>
    refine keeps_answerReading fun draft _ =>
      (command (c := .setActive _ _) trivial).bind fun _ => ?_
    exact keeps_answerOutcome fun _ => keeps_pure _
  | getReview =>
    refine keeps_answerReading fun id _ => (keeps_query _).bind fun _ => ?_
    exact keeps_answerOutcome fun _ => keeps_pure _
  | openPullRequest =>
    refine keeps_answerReading fun draft _ =>
      (command (c := .openPullRequest _ _ _ _ _) trivial).bind fun _ => ?_
    exact keeps_answerOutcome fun _ => keeps_pure _
  | mergePullRequest =>
    refine keeps_answerReading fun draft _ => (command (c := .merge _) trivial).bind fun _ => ?_
    refine keeps_answerOutcome fun p => (keeps_query _).bind fun _ => ?_
    exact keeps_answerOutcome fun _ => keeps_pure _
  | reassign =>
    refine keeps_answerReading fun draft _ =>
      (command (c := .reassign _ _ _) trivial).bind fun _ => ?_
    exact keeps_answerOutcome fun _ => keeps_pure _

end Course

namespace Visit

variable {name : String}

theorem keeps_serve (v : Visit) : Course.Keeps Tables.Addressable name (v.serve name) := by
  intro s t hs ht
  rw [run_serve]
  have hs' := Task.supply_rests hs v.supply
  by_cases hsent : ∃ e, v.SentTo e
  · obtain ⟨e, he⟩ := hsent
    rw [serveAny_endpoint he]
    exact Course.keeps_serveAt e v.request _ t hs' ht
  · obtain ⟨response, hserve⟩ := exists_serveAny_eq (not_exists.mp hsent) (Course.desk name)
    rw [hserve]
    exact Course.keeps_pure response _ t hs' ht

end Visit

/-- Requests are served one after the other on tables that were empty in the beginning, whatever the
surroundings hand out. -/
inductive Visits (name : String) : List Visit → Session → Prop where
  | start {s : Session} (rests : s.Rests name .empty) : Visits name [] s
  | visit {vs : List Visit} {v : Visit} {s s' : Session} {r : Response} (past : Visits name vs s)
      (served : (v.serve name).run s = some (r, s')) : Visits name (vs ++ [v]) s'

/-- **Whatever was requested, teams have trimmed names that tell them apart.** -/
theorem Visits.addressable {name : String} {vs : List Visit} {s : Session} (h : Visits name vs s) :
    ∃ t, s.Rests name t ∧ t.Addressable := by
  induction h with
  | start rests => exact ⟨.empty, rests, Tables.addressable_empty⟩
  | @visit vs v s s' r past served ih =>
    obtain ⟨t, hs, ht⟩ := ih
    obtain ⟨r', s'', t', hrun, hs', ht'⟩ := v.keeps_serve s t hs ht
    -- the visit comes to one end only, so these are the tables after the one that was served
    rw [served] at hrun
    cases hrun
    exact ⟨t', hs', ht'⟩

end ReviewRota
