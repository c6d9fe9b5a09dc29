import ReviewRota.Proofs.History

/-!
# Failing inside an open transaction

A command that joins an open transaction has no copy of its own to throw away, so nothing would
take back what it wrote before it failed. Nothing has to: on tables with a history, every check
that can fail comes before the first change.
-/

namespace ReviewRota

open Call (founding)

variable {name : String} {w : Tables} {s s' : Session} {ks : List Call}

/-- **A command that fails inside an open transaction leaves no trace but events**: the tables
of the transaction, all other versions and databases, the clock and the identifiers are as they
were. -/
theorem joined_failure_leaves_no_trace {c : Command} {f : Failure}
    (past : History name .empty ks w) (joined : s.Joins name w) (proper : c.Proper ⟨w, s.supply⟩)
    (failed : (Course.command name c).run s = some (.error f, s')) :
    s'.Joins name w ∧ ∃ es, s' = s.heard es := by
  have hi := past.integrity Tables.integrity_empty
  have hends := Command.ends hi proper
  obtain ⟨s'', hrun, -⟩ := Course.command_joins joined hi proper
  rw [failed] at hrun
  cases hends with
  | refused g hg =>
    obtain ⟨es, htransaction⟩ := Course.inTransaction_joins_of_kept joined hg
    have houtcome : (c.program.on ⟨w, s.supply⟩).1 = .error g := by rw [hg]
    rw [← houtcome] at htransaction
    obtain ⟨fs, hcommand⟩ := Course.command_eq (.refused g hg) htransaction
    rw [failed, Session.heard_heard] at hcommand
    obtain ⟨-, heq⟩ := Prod.mk.inj (Option.some.inj hcommand)
    exact ⟨heq ▸ joined.heard _, _, heq⟩
  | kept r e hr =>
    rw [hr] at hrun
    cases hrun
  | changed r e w' hr =>
    rw [hr] at hrun
    cases hrun

theorem second_founding_leaves_no_trace :
    ∃ (s s' : Session) (f : Failure), s.Joins "rota" (founding.after .empty) ∧
      (Course.command "rota" (.createTeam ⟨"core", []⟩)).run s = some (.error f, s') ∧
      s'.Joins "rota" (founding.after .empty) ∧ ∃ es, s' = s.heard es := by
  have past := History.history_founding "rota"
  have hi := History.integrity_founding
  have hrests := Session.rests_holding "rota" (founding.after .empty) default
  have joined := hrests.joins_entered (v := { versions := [founding.after .empty] }) rfl
  have hnamed : (founding.after .empty).teamNamed? "core" = some ⟨Supply.serial 1, "core"⟩ := rfl
  have proper : (Command.createTeam ⟨"core", []⟩).Proper ⟨founding.after .empty, default⟩ := by
    refine ⟨⟨by decide, by decide⟩, ?_⟩
    intro hnone
    rw [hnamed] at hnone
    cases hnone
  have herror :
      (Command.createTeam ⟨"core", []⟩).program.on ⟨founding.after .empty, default⟩ = _ :=
    Program.on_createTeam_named hnamed
  obtain ⟨s', failed, -⟩ := Course.command_joins joined hi proper
  rw [Session.supply_entered, Session.supply_holding, herror] at failed
  exact ⟨_, s', _, joined, failed, joined_failure_leaves_no_trace past joined proper failed⟩

end ReviewRota
