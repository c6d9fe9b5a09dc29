import ReviewRota.Proofs.Connected
import ReviewRota.Proofs.Portable

/-!
# Tables in memory and a database

A call of the service gives the same answer on tables in memory and over a connection whose answers
are those of a database that holds the same tables, and it leaves the same tables in both. The
answers of the database are constrained by what statements mean and by nothing else: it may return
rows in any order that was not asked for and word its refusals as it likes.
-/

namespace ReviewRota

open Sql

/-! ## Contents that hold given tables -/

/-- A row that shows some values and says nothing else. -/
def Sql.Row.showing (values : List (Column × Datum)) : Row := values.map fun v => (v.1.name, v.2)

theorem Sql.Row.shows_showing {values : List (Column × Datum)}
    (distinct : (values.map fun v => v.1.name).Nodup) : (Row.showing values).Shows values := by
  induction values with
  | nil => exact List.forall_mem_nil _
  | cons v vs ih =>
    rw [List.map_cons, List.nodup_cons] at distinct
    refine List.forall_mem_cons.mpr ⟨by simp [showing, value, find?], fun u hu => ?_⟩
    have hne : v.1.name ≠ u.1.name := fun he => distinct.1 (he ▸ List.mem_map.mpr ⟨u, hu, rfl⟩)
    have hrest := ih distinct.2 u hu
    simpa [showing, value, find?, hne] using hrest

namespace Tables

/-- Contents that hold tables. -/
def stored (t : Tables) : Contents := fun name r =>
  (name = Schema.teams.name ∧ ∃ a : Team, t.teams.find? a.id = some a ∧ .showing a.data = r) ∨
  (name = Schema.users.name ∧ ∃ a : User, t.users.find? a.id = some a ∧ .showing a.data = r) ∨
  (name = Schema.pullRequests.name ∧
    ∃ a : PullRequest, t.pullRequests.find? a.id = some a ∧ .showing a.data = r) ∨
  (name = Schema.reviewers.name ∧ ∃ a, a ∈ t.reviewers ∧ .showing (Pairs.data a) = r)

theorem holds_stored {t : Tables} (sound : t.Sound) : t.stored.Holds t := by
  have hfiles : ∀ {α : Type} (data : α → List (Column × Datum)) (mem : α → Prop),
      (∀ a, ((data a).map fun v => v.1.name).Nodup) →
        Files (fun a => Row.showing (data a)) (fun r => ∃ a, mem a ∧ .showing (data a) = r) data
          mem := by
    intro α data mem hdistinct
    exact ⟨fun a ha => ⟨⟨a, ha, rfl⟩, Row.shows_showing (hdistinct a)⟩, fun r hr => hr⟩
  have hteams := hfiles Team.data (fun a => t.teams.find? a.id = some a)
    fun a => (by decide : ["id", "name"].Nodup)
  have husers := hfiles User.data (fun a => t.users.find? a.id = some a)
    fun a => (by decide : ["id", "username", "is_active", "team_id"].Nodup)
  have hpullRequests := hfiles PullRequest.data (fun a => t.pullRequests.find? a.id = some a)
    fun a => (by decide : ["id", "name", "author_id", "status", "created_at", "merged_at"].Nodup)
  have hpairs := hfiles Pairs.data (fun a => a ∈ t.reviewers)
    fun a => (by decide : ["pull_request_id", "user_id"].Nodup)
  refine ⟨sound, ⟨_, hteams.congr ?_ fun a => Iff.rfl⟩, ⟨_, husers.congr ?_ fun a => Iff.rfl⟩,
    ⟨_, hpullRequests.congr ?_ fun a => Iff.rfl⟩, ⟨_, hpairs.congr ?_ fun a => Iff.rfl⟩⟩ <;>
  · intro r
    simp [stored, Schema.teams, Schema.users, Schema.pullRequests, Schema.reviewers]

end Tables

namespace Task

variable {name : String} {t : Tables} {k : Task}

/-- What the surroundings of a call see to: the members of a draft differ, and a new team is not
handed the identifier of a stored one. -/
def Fair (t : Tables) : Task → Prop
  | command k => ∀ draft, k.command = .createTeam draft → k.Proper t
  | query .. => True

theorem portable_program (hi : t.Integrity) (fair : k.Fair t) :
    k.program.Portable ⟨t, k.supply⟩ := by
  cases k with
  | command c => exact Program.portable_command hi fair
  | query q supply => exact Program.portable_query hi q

/-- What the exchange of a call ensures from its start. -/
theorem ensures_start (hi : t.Integrity) (fair : k.Fair t) {d : Contents} (held : d.Holds t) :
    Exchange.Progress.Ensures d
      (fun r w _ => r = k.outcome t ∧
        w.tables = (Program.on k.program ⟨t, k.supply⟩).2.tables)
      ⟨k.program.refine perform, k.supply, []⟩ :=
  ⟨t, held, (portable_program hi fair).ensures fun _ _ => ⟨rfl, rfl⟩⟩

/-- What a call comes to with a database that holds tables. -/
theorem end_of_reaches (hi : t.Integrity) (fair : k.Fair t) {d : Contents} (held : d.Holds t)
    {r : Except Failure k.Result} {supply : Supply} {ws : List Write}
    (h : Exchange.Reaches d ⟨k.program.refine perform, k.supply, []⟩ (.ended r supply ws)) :
    r = k.outcome t ∧ (k.settles r.isOk ws d).Holds (k.leaves t) := by
  obtain ⟨t', ht', rfl, rfl⟩ := ((ensures_start hi fair held).reach h).end
  refine ⟨rfl, ?_⟩
  unfold settles leaves
  cases k with
  | command c =>
    show (if (true && _) = true then d else d.writeAll ws).Holds (if _ then _ else t)
    cases (outcome (command c) t).isOk with
    | true => exact ht'
    | false => exact held
  | query q supply =>
    obtain ⟨look, hlook⟩ := q.looks_program.exists_look
    -- a query writes nothing, whatever it has asked
    have hsame : (Program.on (query q supply).program ⟨t, (query q supply).supply⟩).2.tables = t :=
      congrArg (fun o => o.2.tables) (hlook _)
    rw [hsame] at ht'
    show (d.writeAll ws).Holds (if _ then _ else _)
    rwa [hsame, ite_self]

end Task

end ReviewRota
