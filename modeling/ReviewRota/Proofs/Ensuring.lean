import ReviewRota.Proofs.Stored
import ReviewRota.Sql.Calls

/-!
# Exchanges with a database that holds tables

What an exchange comes to whatever the database answers, as long as its contents hold tables: the
weakest precondition of an exchange, with a rule for each kind of statement. A rule says which row a
statement finds or writes, and what is left to show is how the tables change and how the exchange
goes on with the answer.
-/

namespace ReviewRota

namespace Dialogue

variable {Ask : Type} {Reply : Ask → Type} {α β γ : Type}

@[simp] theorem settle_pure (a : α) (k : Except Failure α → Dialogue Ask Reply β) :
    settle (pure a) k = k (.ok a) := rfl

@[simp] theorem settle_done (a : α) (k : Except Failure α → Dialogue Ask Reply β) :
    settle (.done a) k = k (.ok a) := rfl

@[simp] theorem settle_ofExcept (r : Except Failure α)
    (k : Except Failure α → Dialogue Ask Reply β) : settle (ofExcept r) k = k r := by
  cases r <;> rfl

@[simp] theorem settle_put (q : Ask) (k : Except Failure (Reply q) → Dialogue Ask Reply β) :
    settle (put q) k = .ask q k :=
  congrArg (ask q) (funext fun r => settle_ofExcept r k)

@[simp] theorem settle_putOr (q : Ask) (reword : Failure → Failure)
    (k : Except Failure (Reply q) → Dialogue Ask Reply β) :
    settle (putOr q reword) k = .ask q fun r => k (r.mapError reword) :=
  congrArg (ask q) (funext fun r => settle_ofExcept (r.mapError reword) k)

theorem settle_bind (d : Dialogue Ask Reply α) (f : α → Dialogue Ask Reply β)
    (k : Except Failure β → Dialogue Ask Reply γ) :
    settle (d >>= f) k = settle d fun r => match r with
      | .ok a => settle (f a) k
      | .error e => k (.error e) := by
  show settle (d.bind f) k = _
  rw [bind_eq_settle, settle_settle]
  refine congrArg (settle d) (funext fun r => ?_)
  cases r <;> rfl

end Dialogue

namespace Sql

/-! ## Reading an answer -/

namespace Exchange

variable {α : Type}

theorem exists_checked (c : Checked α) : ∃ r, checked c = Dialogue.ofExcept r := by
  cases c with
  | valid a => exact ⟨.ok a, rfl⟩
  | invalid is => exact ⟨.error (.invalid is), rfl⟩

/-- Nothing is asked while an answer is read. -/
theorem exists_entity (read : Row → Checked α) (f : Failure) (a : Answer) :
    ∃ r, entity read f a = Dialogue.ofExcept r := by
  unfold entity
  cases a with
  | nothing => exact ⟨.error f, rfl⟩
  | plain r => exact ⟨.error f, rfl⟩
  | row r => exact exists_checked (read r)
  | rows rs => exact ⟨.error _, rfl⟩

theorem exists_each {γ : Type} {step : γ → Exchange α} (h : ∀ x, ∃ r, step x = Dialogue.ofExcept r)
    (xs : List γ) : ∃ r, Dialogue.each step xs = Dialogue.ofExcept r := by
  induction xs with
  | nil => exact ⟨.ok [], rfl⟩
  | cons x xs ih =>
    obtain ⟨r, hr⟩ := h x
    obtain ⟨rs, hrs⟩ := ih
    rw [Dialogue.each, hr, hrs]
    cases r with
    | error f => exact ⟨.error f, rfl⟩
    | ok a =>
      cases rs with
      | error f => exact ⟨.error f, rfl⟩
      | ok as => exact ⟨.ok (a :: as), rfl⟩

theorem exists_cellIn (column : Column) (r : Row) : ∃ r', cellIn column r = Dialogue.ofExcept r' := by
  unfold cellIn
  split
  · exact ⟨.error _, rfl⟩
  · split
    · exact ⟨.error _, rfl⟩
    · exact ⟨.ok _, rfl⟩

end Exchange

/-! ## Rows to write -/

/-- A row with given values in some columns. -/
def Row.build (cs : List Column) (g : String → Datum) : Row := cs.map fun c => (c.name, g c.name)

theorem Row.value_build {cs : List Column} (g : String → Datum) {name : String}
    (h : name ∈ cs.map Column.name) : (Row.build cs g).value name = g name := by
  induction cs with
  | nil => cases h
  | cons c cs ih =>
    simp only [build, List.map_cons, value, find?]
    split
    · rename_i he
      rw [he]
      rfl
    · rename_i hne
      rw [List.map_cons, List.mem_cons] at h
      exact ih (h.resolve_left fun he => hne he.symm)

theorem Row.columns_build (cs : List Column) (g : String → Datum) :
    (Row.build cs g).map Prod.fst = cs.map Column.name := by
  simp [build]

theorem find?_column {β : Type} {values : List (Column × β)}
    (distinct : (values.map fun v => v.1.name).Nodup) {v : Column × β} (hv : v ∈ values) :
    values.find? (fun w => w.1.name = v.1.name) = some v := by
  induction values with
  | nil => cases hv
  | cons w ws ih =>
    rw [List.map_cons, List.nodup_cons] at distinct
    rcases List.mem_cons.mp hv with rfl | hv
    · simp
    · have hne : w.1.name ≠ v.1.name := fun he =>
        distinct.1 (he ▸ List.mem_map.mpr ⟨v, hv, rfl⟩)
      simp [hne, ih distinct.2 hv]

theorem exists_completes (t : Table) {values : List (Column × Datum)}
    (distinct : (values.map fun v => v.1.name).Nodup)
    (known : ∀ v ∈ values, v.1.name ∈ t.columns.map Column.name) :
    ∃ row, Completes t values row := by
  refine ⟨.build t.columns fun name => ((values.find? fun v => v.1.name = name).map Prod.snd).getD
    .null, Row.columns_build _ _, ?_, ?_⟩
  · intro v hv
    rw [Row.value_build _ (known v hv), find?_column distinct hv]
    rfl
  · intro c hc _ hempty
    have hfind : values.find? (fun w => w.1.name = c.name) = none := by
      simpa using hempty
    rw [Row.value_build _ (List.mem_map_of_mem hc), hfind]
    rfl

/-- The value that an update gives to a column. -/
def assigned (old : Row) (values : List (Column × Assigned)) (name : String) : Datum :=
  match values.find? fun v => v.1.name = name with
  | some (_, .value d) => d
  | _ => old.value name

theorem exists_changes (t : Table) {values : List (Column × Assigned)} (old : Row)
    (distinct : (values.map fun v => v.1.name).Nodup)
    (known : ∀ v ∈ values, v.1.name ∈ t.columns.map Column.name)
    (keyKnown : ∀ c ∈ t.primaryKey.columns, c ∈ t.columns.map Column.name)
    (keyKept : ∀ v ∈ values, v.1.name ∉ t.primaryKey.columns) :
    ∃ new, Changes t values old new := by
  have hkept : ∀ name, (∀ v ∈ values, v.1.name ≠ name) →
      assigned old values name = old.value name := by
    intro name hne
    have hfind : values.find? (fun v => v.1.name = name) = none := by
      simpa using hne
    rw [assigned, hfind]
  refine ⟨.build t.columns (assigned old values), Row.columns_build _ _, ?_, ?_, ?_⟩
  · intro c d hv
    rw [Row.value_build _ (known _ hv), assigned, find?_column distinct hv]
  -- columns that are not named keep their values
  · intro c hc hne
    rw [Row.value_build _ (List.mem_map_of_mem hc), hkept c.name hne]
  · refine List.map_congr_left fun c hc => ?_
    rw [Row.value_build _ (keyKnown c hc)]
    exact hkept c fun v hv he => keyKept v hv (he ▸ hc)

/-! ## Writes that break no constraint -/

/-- No constraint stands against some writes. -/
structure Contents.Accepts (d : Contents) (ws : List Write) : Prop where
  distinct : ∀ x ∈ ws, ¬ x.Clashes d (d.writeAll ws)
  sound : ∀ x ∈ ws, ¬ x.Dangles (d.writeAll ws)

section Accepts

variable {d : Contents} {tb : Table} {row : Row} {t : Tables}

theorem Contents.accepts_nil (d : Contents) : d.Accepts [] := ⟨by simp, by simp⟩

theorem Contents.Admits.accepts_insert (h : d.Admits tb row t)
    (fresh : ∀ r, d tb.name r → tb.key r ≠ tb.key row) : d.Accepts [.insert tb row] where
  distinct := by
    intro x hx
    obtain rfl := List.mem_singleton.mp hx
    rintro (⟨r, hr, he⟩ | hdouble)
    · exact fresh r hr he
    · exact hdouble h.distinct
  sound := by
    intro x hx
    obtain rfl := List.mem_singleton.mp hx
    rintro (hempty | hlost)
    · exact hempty h.full
    · exact hlost h.refers

theorem Contents.Admits.accepts_replace (h : d.Admits tb row t) : d.Accepts [.replace tb row] where
  distinct := by
    intro x hx
    obtain rfl := List.mem_singleton.mp hx
    exact fun hdouble => hdouble h.distinct
  sound := by
    intro x hx
    obtain rfl := List.mem_singleton.mp hx
    rintro (hempty | hlost)
    · exact hempty h.full
    · exact hlost h.refers

/-- Rows that are taken out are neither duplicates nor do they lack anything. -/
theorem Contents.accepts_remove (d : Contents) (tb : Table) (rows : List Row) :
    d.Accepts (rows.map fun r => .remove tb (tb.key r)) where
  distinct := by
    intro x hx
    obtain ⟨r, -, rfl⟩ := List.mem_map.mp hx
    exact id
  sound := by
    intro x hx
    obtain ⟨r, -, rfl⟩ := List.mem_map.mp hx
    exact id

/-- A statement is not refused if no constraint stands against anything that it attempts. -/
theorem Executes.attempts {mode : Mode} {st : Statement} {a : Scripted} {ws : List Write}
    (executes : Executes d mode st a ws)
    (accepts : ∀ rows more, Attempts d st rows more → d.Accepts more) :
    ∃ rows, a = .ok (mode.answer rows) ∧ Attempts d st rows ws := by
  cases executes with
  | done attempts => exact ⟨_, rfl, attempts⟩
  | duplicate attempts clash =>
    obtain ⟨x, hx, hc⟩ := clash
    exact absurd hc ((accepts _ _ attempts).distinct x hx)
  | interrupted attempts _ dangling =>
    obtain ⟨x, hx, hd⟩ := dangling
    exact absurd hd ((accepts _ _ attempts).sound x hx)

end Accepts

/-! ## What an exchange ensures -/

/-- What holds when an exchange is over. -/
abbrev Outcome (α : Type) := Except Failure α → World → List Write → Prop

namespace Exchange

/-- However a database answers whose contents hold the tables, the exchange can go on, and when it is
over the outcome holds of the tables that the contents then hold and of all that was written, which
comes after some earlier writes. -/
def Ensures {α : Type} (Q : Outcome α) : Exchange α → World → List Write → Prop
  | .done a, w, ws => Q (.ok a) w ws
  | .fail f, w, ws => Q (.error f) w ws
  | .note _ rest, w, ws => Ensures Q rest w ws
  | .ask .clock next, w, ws =>
    Ensures Q (next (.ok w.supply.readClock.1)) ⟨w.tables, w.supply.readClock.2⟩ ws
  | .ask .freshId next, w, ws =>
    Ensures Q (next (.ok w.supply.freshId.1)) ⟨w.tables, w.supply.freshId.2⟩ ws
  | .ask (.send mode st) next, w, ws =>
    (∀ d : Contents, d.Holds w.tables → ∃ a more, Executes d mode st a more) ∧
      ∀ (d : Contents) a more, d.Holds w.tables → Executes d mode st a more →
        ∃ t, (d.writeAll more).Holds t ∧ Ensures Q (next a) ⟨t, w.supply⟩ (ws ++ more)

section Rules

variable {α β : Type} {Q : Outcome β} {w : World} {ws : List Write} {mode : Mode}
  {next : Except Failure Answer → Exchange β} {tb : Table}
  {data : α → List (Column × Datum)} {conditions : List Condition}

/-- A statement that breaks no constraint. -/
theorem ensures_send {st : Statement}
    (hstart : ∀ d : Contents, d.Holds w.tables → ∃ rows more, Attempts d st rows more)
    (haccepts : ∀ (d : Contents) rows more, d.Holds w.tables → Attempts d st rows more →
      d.Accepts more)
    (hnext : ∀ (d : Contents) rows more, d.Holds w.tables → Attempts d st rows more →
      ∃ t, (d.writeAll more).Holds t ∧
        Ensures Q (next (.ok (mode.answer rows))) ⟨t, w.supply⟩ (ws ++ more)) :
    Ensures Q (.ask (.send mode st) next) w ws := by
  constructor
  · intro d hd
    obtain ⟨rows, more, attempts⟩ := hstart d hd
    have haccept := haccepts d rows more hd attempts
    exact ⟨_, more, .done attempts haccept.distinct haccept.sound⟩
  · intro d a more hd executes
    obtain ⟨rows, rfl, attempts⟩ := executes.attempts (haccepts d · · hd)
    exact hnext d rows more hd attempts

/-- A selection writes nothing and is never refused. -/
theorem ensures_select {cs : List Column} {order : List SortKey} {limit offset : Option Int}
    {lock : Bool}
    (hlists : ∀ d : Contents, d.Holds w.tables →
      ∃ rows, Lists d tb conditions rows ∧ rows.Pairwise (InOrder order))
    (hnext : ∀ (d : Contents) rows, d.Holds w.tables → Lists d tb conditions rows →
      rows.Pairwise (InOrder order) → Ensures Q
        (next (.ok (mode.answer ((bounded limit offset rows).map (Row.project cs))))) w ws) :
    Ensures Q (.ask (.send mode (.select tb cs conditions order limit offset lock)) next)
      w ws := by
  refine ensures_send ?_ ?_ ?_
  · intro d hd
    obtain ⟨rows, hrows, hordered⟩ := hlists d hd
    exact ⟨_, _, .select hrows hordered⟩
  · intro d rows more hd attempts
    cases attempts
    exact d.accepts_nil
  · intro d rows more hd attempts
    cases attempts with
    | select hrows hordered =>
      refine ⟨w.tables, hd, ?_⟩
      rw [List.append_nil]
      exact hnext d _ hd hrows hordered

/-- A selection of one row by conditions that pick the row of an entity. -/
theorem ensures_selectOne {o : Option α} {lock : Bool}
    (hpicks : ∀ d : Contents, d.Holds w.tables → Picks d tb conditions data o)
    (hnone : o = none → Ensures Q (next (.ok .nothing)) w ws)
    (hsome : ∀ a (r : Row), o = some a → r.Shows (data a) →
      Ensures Q (next (.ok (.row (r.project tb.columns)))) w ws) :
    Ensures Q (.ask (.send .one (selectOne tb conditions lock)) next) w ws := by
  refine ensures_select ?_ ?_
  · intro d hd
    obtain ⟨f, -, hlists⟩ := hpicks d hd
    refine ⟨_, (hlists _).mpr rfl, ?_⟩
    cases o <;> simp
  · intro d rows hd hrows _
    obtain ⟨f, hshows, hlists⟩ := hpicks d hd
    obtain rfl := (hlists rows).mp hrows
    cases o with
    | none => exact hnone rfl
    | some a => exact hsome a (f a) rfl (hshows a rfl)

/-- A new row that no constraint stands against. -/
theorem ensures_insert {values : List (Column × Datum)} {returning : Bool} {t : Tables}
    (hrow : ∃ row, Completes tb values row)
    (hnew : ∀ (d : Contents) row, d.Holds w.tables → Completes tb values row →
      (∀ r, d tb.name r → tb.key r ≠ tb.key row) ∧ d.Admits tb row t)
    (hnext : ∀ row, Completes tb values row → Ensures Q
      (next (.ok (mode.answer (if returning then [row.project tb.columns] else []))))
      ⟨t, w.supply⟩ (ws ++ [.insert tb row])) :
    Ensures Q (.ask (.send mode (.insert tb values returning)) next) w ws := by
  refine ensures_send ?_ ?_ ?_
  · intro d hd
    obtain ⟨row, hcompletes⟩ := hrow
    exact ⟨_, _, .insert hcompletes⟩
  · intro d rows more hd attempts
    cases attempts with
    | insert hcompletes =>
      obtain ⟨hkey, hadmits⟩ := hnew d _ hd hcompletes
      exact hadmits.accepts_insert hkey
  · intro d rows more hd attempts
    cases attempts with
    | insert hcompletes =>
      obtain ⟨-, hadmits⟩ := hnew d _ hd hcompletes
      exact ⟨t, hadmits.holds, hnext _ hcompletes⟩

/-- A new row that would be a duplicate. -/
theorem ensures_insert_duplicate {values : List (Column × Datum)} {returning : Bool}
    (hrow : ∃ row, Completes tb values row)
    (hclash : ∀ (d : Contents) row, d.Holds w.tables → Completes tb values row →
      (∃ r, d tb.name r ∧ tb.key r = tb.key row) ∨ ¬ (d.put tb row).Distinct tb)
    (hnext : ∀ text, Ensures Q (next (.error (.duplicate text))) w ws) :
    Ensures Q (.ask (.send mode (.insert tb values returning)) next) w ws := by
  constructor
  · intro d hd
    obtain ⟨row, hcompletes⟩ := hrow
    have hc := hclash d row hd hcompletes
    exact ⟨_, [], .duplicate (.insert hcompletes) ⟨_, List.mem_singleton_self _, hc⟩ ""⟩
  · intro d a more hd hexecutes
    cases hexecutes with
    | done attempts distinct =>
      cases attempts with
      | insert hcompletes =>
        have hc := hclash d _ hd hcompletes
        exact absurd hc (distinct _ (List.mem_singleton_self _))
    | duplicate attempts clash text =>
      refine ⟨w.tables, hd, ?_⟩
      rw [List.append_nil]
      exact hnext text
    | interrupted attempts distinct =>
      cases attempts with
      | insert hcompletes =>
        have hc := hclash d _ hd hcompletes
        exact absurd hc (distinct _ (List.mem_singleton_self _))

/-- An update of the row of an entity. -/
theorem ensures_update {values : List (Column × Assigned)} {returning : Bool} {a : α} {t : Tables}
    (hpicks : ∀ d : Contents, d.Holds w.tables → Picks d tb conditions data (some a))
    (hrow : ∀ old, ∃ new, Changes tb values old new)
    (hnew : ∀ (d : Contents) old new, d.Holds w.tables → old.Shows (data a) →
      Changes tb values old new → d.Admits tb new t)
    (hnext : ∀ old new, old.Shows (data a) → Changes tb values old new → Ensures Q
      (next (.ok (mode.answer (if returning then [new.project tb.columns] else []))))
      ⟨t, w.supply⟩ (ws ++ [.replace tb new])) :
    Ensures Q (.ask (.send mode (.update tb values conditions returning)) next) w ws := by
  -- whatever rows the update finds, there is just the one
  have hone : ∀ (d : Contents) changed, d.Holds w.tables →
      Lists d tb conditions (changed.map Prod.fst) → (∀ c ∈ changed, Changes tb values c.1 c.2) →
        ∃ old new, changed = [(old, new)] ∧ old.Shows (data a) ∧ Changes tb values old new := by
    intro d changed hd hlists hchanges
    obtain ⟨f, hshows, hpick⟩ := hpicks d hd
    have hrows := (hpick _).mp hlists
    obtain ⟨⟨old, new⟩, rfl, hold⟩ := List.map_eq_singleton_iff.mp hrows
    obtain rfl : old = f a := hold
    exact ⟨_, new, rfl, hshows a rfl, hchanges _ (List.mem_singleton_self _)⟩
  refine ensures_send ?_ ?_ ?_
  · intro d hd
    obtain ⟨f, hshows, hpick⟩ := hpicks d hd
    obtain ⟨new, hchanges⟩ := hrow (f a)
    have hlists : Lists d tb conditions ([(f a, new)].map Prod.fst) := (hpick _).mpr rfl
    exact ⟨_, _, .update hlists (by simpa using hchanges)⟩
  · intro d rows more hd attempts
    cases attempts with
    | update hlists hchanges =>
      obtain ⟨old, new, rfl, hold, hchange⟩ := hone d _ hd hlists hchanges
      exact (hnew d old new hd hold hchange).accepts_replace
  · intro d rows more hd attempts
    cases attempts with
    | update hlists hchanges =>
      obtain ⟨old, new, rfl, hold, hchange⟩ := hone d _ hd hlists hchanges
      exact ⟨t, (hnew d old new hd hold hchange).holds, hnext old new hold hchange⟩

/-- An update that finds no row. -/
theorem ensures_update_none {values : List (Column × Assigned)} {returning : Bool}
    (hpicks : ∀ d : Contents, d.Holds w.tables →
      Picks d tb conditions data (none : Option α))
    (hnext : Ensures Q (next (.ok (mode.answer []))) w ws) :
    Ensures Q (.ask (.send mode (.update tb values conditions returning)) next) w ws := by
  have hnone : ∀ (d : Contents) (changed : List (Row × Row)), d.Holds w.tables →
      Lists d tb conditions (changed.map Prod.fst) → changed = [] := by
    intro d changed hd hlists
    obtain ⟨f, -, hpick⟩ := hpicks d hd
    exact List.map_eq_nil_iff.mp ((hpick _).mp hlists)
  refine ensures_send ?_ ?_ ?_
  · intro d hd
    obtain ⟨f, -, hpick⟩ := hpicks d hd
    have hlists : Lists d tb conditions (([] : List (Row × Row)).map Prod.fst) :=
      (hpick _).mpr rfl
    exact ⟨_, _, .update hlists (by simp)⟩
  · intro d rows more hd attempts
    cases attempts with
    | update hlists hchanges =>
      obtain rfl := hnone d _ hd hlists
      exact d.accepts_nil
  · intro d rows more hd attempts
    cases attempts with
    | update hlists hchanges =>
      obtain rfl := hnone d _ hd hlists
      refine ⟨w.tables, hd, ?_⟩
      simpa using hnext

/-- The deletion of the row of an entity, if there is one. -/
theorem ensures_delete {o : Option α} {t : Tables}
    (unreferenced : ∀ other ∈ Schema.tables, ∀ ref ∈ other.references, ref.table ≠ tb.name)
    (hpicks : ∀ d : Contents, d.Holds w.tables → Picks d tb conditions data o)
    (hnone : o = none → Ensures Q (next (.ok (mode.answer []))) w ws)
    (hholds : ∀ (d : Contents) a (old : Row), d.Holds w.tables → o = some a → old.Shows (data a) →
      (d.remove tb (tb.key old)).Holds t)
    (hsome : ∀ a (old : Row), o = some a → old.Shows (data a) → Ensures Q
      (next (.ok (mode.answer [old.project tb.columns]))) ⟨t, w.supply⟩
      (ws ++ [.remove tb (tb.key old)])) :
    Ensures Q (.ask (.send mode (.delete tb conditions)) next) w ws := by
  refine ensures_send ?_ ?_ ?_
  · intro d hd
    obtain ⟨f, -, hpick⟩ := hpicks d hd
    exact ⟨_, _, .delete unreferenced ((hpick _).mpr rfl)⟩
  · intro d rows more hd attempts
    cases attempts
    exact d.accepts_remove tb _
  · intro d rows more hd attempts
    cases attempts with
    | delete _ hlists =>
      obtain ⟨f, hshows, hpick⟩ := hpicks d hd
      obtain rfl := (hpick _).mp hlists
      cases o with
      | none =>
        refine ⟨w.tables, hd, ?_⟩
        simpa using hnone rfl
      | some a =>
        have hold := hshows a rfl
        exact ⟨t, hholds d a (f a) hd rfl hold, hsome a (f a) rfl hold⟩

end Rules

end Exchange

end Sql

end ReviewRota
