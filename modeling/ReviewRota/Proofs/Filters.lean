import Mathlib.Data.List.Nodup
import ReviewRota.Sql.Builder
import ReviewRota.Sql.Execution

/-!
# What filters mean

A key of a filter is the name of a column with `__in` behind it, and asks that the column is among
some values; or it is no such key but the name of a column, and asks that the column has a value; or
it asks for nothing. The conditions of a statement are what its filters ask for, one after the other,
and nothing else. So the rows that a statement reaches are those that meet every filter, and the order
of the filters does not matter.
-/

namespace ReviewRota.Sql

/-! ## Keys -/

/-- The columns of a table are told apart by their names, and no name is empty. -/
structure Table.Named (t : Table) : Prop where
  nonempty : ∀ c ∈ t.columns, c.name ≠ ""
  distinct : (t.columns.map Column.name).Nodup

/-- What a key asks for. Membership goes first: a key that asks for it is never the name of a column
to compare with. -/
inductive Asks (t : Table) : String → Column → Comparison → Prop where
  | membership {c : Column} (h : c ∈ t.columns) : Asks t (c.name ++ "__in") c .membership
  | equality {c : Column} (h : c ∈ t.columns)
    (other : ∀ c' ∈ t.columns, c.name ≠ c'.name ++ "__in") : Asks t c.name c .equality

variable {t : Table} {key name : String} {c c' : Column} {k k' : Comparison}

theorem Table.Named.column?_eq_some (ht : t.Named) :
    t.column? name = some c ↔ c ∈ t.columns ∧ c.name = name := by
  constructor
  · intro h
    exact ⟨List.mem_of_find?_eq_some h, by simpa using List.find?_some h⟩
  · rintro ⟨hc, rfl⟩
    cases hfound : t.column? c.name with
    | none => simpa using List.find?_eq_none.mp hfound c hc
    | some c' =>
      have hname : c'.name = c.name := by simpa using List.find?_some hfound
      rw [List.inj_on_of_nodup_map ht.distinct (List.mem_of_find?_eq_some hfound) hc hname]

/-- What is left of a key without the suffix of membership, if that is there. -/
theorem withoutSuffix_eq (hname : name ≠ "") :
    withoutSuffix key "__in" = name ↔ key = name ++ "__in" := by
  unfold withoutSuffix
  constructor
  · intro h
    dsimp only at h
    rw [if_neg (by decide)] at h
    split at h
    · rename_i hsuffix
      obtain ⟨before, hkey⟩ := List.isSuffixOf_iff_suffix.mp hsuffix
      rw [← hkey, List.length_append, Nat.add_sub_cancel, List.take_left] at h
      subst h
      rw [← String.toList_inj, ← hkey]
      simp
    · exact absurd h.symm hname
  · rintro rfl
    dsimp only
    rw [if_neg (by decide), if_pos, String.toList_append, List.length_append, Nat.add_sub_cancel,
      List.take_left, String.ofList_toList]
    rw [List.isSuffixOf_iff_suffix, String.toList_append]
    exact List.suffix_append _ _

theorem Table.Named.column?_empty (ht : t.Named) : t.column? "" = none := by
  cases h : t.column? "" with
  | none => rfl
  | some c =>
    obtain ⟨hc, hname⟩ := ht.column?_eq_some.mp h
    exact absurd hname (ht.nonempty c hc)

/-- The longer suffix is tried first. -/
theorem keyMeaning?_eq (ht : t.Named) : keyMeaning? t key =
    ((t.column? (withoutSuffix key "__in")).map fun c => (c, Comparison.membership)).or
      ((t.column? key).map fun c => (c, Comparison.equality)) := by
  have hguard (name : String) (k : Comparison) :
      (if name = "" then none else (t.column? name).map fun c => (c, k)) =
        (t.column? name).map fun c => (c, k) := by
    split
    · rename_i hname
      rw [hname, ht.column?_empty]
      rfl
    · rfl
  have hwhole : withoutSuffix key "" = key := rfl
  simp only [keyMeaning?, suffixes, List.findSome?_cons, List.findSome?_nil, hguard, hwhole]
  cases t.column? (withoutSuffix key "__in") <;> cases t.column? key <;> rfl

/-- A key with the suffix of membership behind the name of a column. -/
theorem column?_withoutSuffix (ht : t.Named) :
    t.column? (withoutSuffix key "__in") = some c ↔ c ∈ t.columns ∧ key = c.name ++ "__in" := by
  rw [ht.column?_eq_some, eq_comm (a := c.name)]
  exact and_congr_right fun hc => withoutSuffix_eq (ht.nonempty c hc)

/-- A key has the meaning that it asks for. -/
theorem keyMeaning?_eq_some (ht : t.Named) : keyMeaning? t key = some (c, k) ↔ Asks t key c k := by
  rw [keyMeaning?_eq ht]
  constructor
  · intro h
    cases hin : t.column? (withoutSuffix key "__in") with
    | some c' =>
      obtain ⟨hc', rfl⟩ := (column?_withoutSuffix ht).mp hin
      rw [hin] at h
      cases h
      exact .membership hc'
    | none =>
      rw [hin] at h
      obtain ⟨c', hkey, heq⟩ := Option.map_eq_some_iff.mp h
      obtain ⟨hc', rfl⟩ := ht.column?_eq_some.mp hkey
      cases heq
      refine .equality hc' fun other hother hname => ?_
      exact nomatch hin.symm.trans ((column?_withoutSuffix ht).mpr ⟨hother, hname⟩)
  · intro h
    cases h with
    | membership hc => rw [(column?_withoutSuffix ht).mpr ⟨hc, rfl⟩]; rfl
    | equality hc other =>
      have hnone : t.column? (withoutSuffix c.name "__in") = none := by
        cases hin : t.column? (withoutSuffix c.name "__in") with
        | none => rfl
        | some c' =>
          obtain ⟨hc', hname⟩ := (column?_withoutSuffix ht).mp hin
          exact absurd hname (other c' hc')
      rw [hnone, ht.column?_eq_some.mpr ⟨hc, rfl⟩]
      rfl

/-! ## Conditions -/

/-- What filters ask for, in order: one condition for each key that asks for something, and none for
the others. -/
inductive Asked (t : Table) : List (String × FilterValue) → List Condition → Prop where
  | nil : Asked t [] []
  | among {key : String} {ds : List Datum} {c : Column} {fs : List (String × FilterValue)}
    {cs : List Condition} (h : Asks t key c .membership) (rest : Asked t fs cs) :
    Asked t ((key, .many ds) :: fs) (.among c ds :: cs)
  | equals {key : String} {v : FilterValue} {c : Column} {fs : List (String × FilterValue)}
    {cs : List Condition} (h : Asks t key c .equality) (rest : Asked t fs cs) :
    Asked t ((key, v) :: fs) (.equals c v.single :: cs)
  | ignored {key : String} {v : FilterValue} {fs : List (String × FilterValue)}
    {cs : List Condition} (h : ∀ c k, ¬ Asks t key c k) (rest : Asked t fs cs) :
    Asked t ((key, v) :: fs) cs

/-- A key that asks for membership comes with a list. -/
def Answerable (t : Table) (f : String × FilterValue) : Prop :=
  ∀ c, Asks t f.1 c .membership → ∃ ds, f.2 = .many ds

/-- A row meets a filter. -/
structure Meets (t : Table) (r : Row) (f : String × FilterValue) : Prop where
  among : ∀ c, Asks t f.1 c .membership → ∃ ds, f.2 = .many ds ∧
    r.value c.name ≠ .null ∧ r.value c.name ∈ ds
  equals : ∀ c, Asks t f.1 c .equality → r.value c.name = f.2.single

variable {v : FilterValue} {f : String × FilterValue} {fs fs' : List (String × FilterValue)}
  {cs : List Condition} {r : Row}

/-- A key asks for one thing at most. -/
theorem Asks.unique (ht : t.Named) (h : Asks t key c k) (h' : Asks t key c' k') :
    c = c' ∧ k = k' := by
  have heq := ((keyMeaning?_eq_some ht).mpr h).symm.trans ((keyMeaning?_eq_some ht).mpr h')
  cases heq
  exact ⟨rfl, rfl⟩

theorem condition?_of_ignored (ht : t.Named) (h : ∀ c k, ¬ Asks t key c k) :
    condition? t key v = .ok none := by
  have hnone : keyMeaning? t key = none := by
    cases hmeaning : keyMeaning? t key with
    | none => rfl
    | some m => exact absurd ((keyMeaning?_eq_some ht).mp hmeaning) (h m.1 m.2)
  unfold condition?
  rw [hnone]

theorem condition?_of_equality (ht : t.Named) (h : Asks t key c .equality) :
    condition? t key v = .ok (some (.equals c v.single)) := by
  unfold condition?
  rw [(keyMeaning?_eq_some ht).mpr h]

theorem condition?_of_membership (ht : t.Named) (h : Asks t key c .membership) {ds : List Datum} :
    condition? t key (.many ds) = .ok (some (.among c ds)) := by
  unfold condition?
  rw [(keyMeaning?_eq_some ht).mpr h]

theorem condition?_of_one (ht : t.Named) (h : Asks t key c .membership) {d : Datum} :
    condition? t key (.one d) = .error (.notASet (FilterValue.shown d)) := by
  unfold condition?
  rw [(keyMeaning?_eq_some ht).mpr h]

/-- What a key asks for, if it asks for anything. -/
theorem exists_asks_or (t : Table) (key : String) :
    (∃ c, Asks t key c .membership) ∨ (∃ c, Asks t key c .equality) ∨ ∀ c k, ¬ Asks t key c k := by
  by_cases h : ∃ c k, Asks t key c k
  · obtain ⟨c, k, h⟩ := h
    cases k with
    | membership => exact .inl ⟨c, h⟩
    | equality => exact .inr (.inl ⟨c, h⟩)
  · exact .inr (.inr fun c k hk => h ⟨c, k, hk⟩)

/-- Steps that can fail go well together when each of them does. -/
theorem bind_eq_ok {α β : Type} {x : Except Failure α} {f : α → Except Failure β} {b : β} :
    x >>= f = .ok b ↔ ∃ a, x = .ok a ∧ f a = .ok b := by
  cases x with
  | error e => exact ⟨nofun, nofun⟩
  | ok a => exact ⟨fun h => ⟨a, rfl, h⟩, fun ⟨_, ha, h⟩ => Except.ok.inj ha ▸ h⟩

theorem conditions_cons (key : String) (v : FilterValue) (fs : List (String × FilterValue)) :
    conditions t ((key, v) :: fs) = do
      let c? ← condition? t key v
      let cs ← conditions t fs
      return c?.toList ++ cs := by
  unfold conditions
  rw [List.mapM_cons]
  dsimp only
  cases condition? t key v with
  | error e => rfl
  | ok c? =>
    cases List.mapM (fun f : String × FilterValue => condition? t f.1 f.2) fs with
    | error e => rfl
    | ok rest => cases c? <;> rfl

/-- The conditions are what the filters ask for. -/
theorem conditions_eq_ok (ht : t.Named) : conditions t fs = .ok cs ↔ Asked t fs cs := by
  constructor
  · intro h
    induction fs generalizing cs with
    | nil =>
      cases h
      exact .nil
    | cons f fs ih =>
      obtain ⟨key, v⟩ := f
      rw [conditions_cons] at h
      obtain ⟨c?, hc?, hrest⟩ := bind_eq_ok.mp h
      obtain ⟨rest, hfs, hcs⟩ := bind_eq_ok.mp hrest
      cases hcs
      rcases exists_asks_or t key with ⟨c, hc⟩ | ⟨c, hc⟩ | hnone
      · cases v with
        | one d => exact nomatch (condition?_of_one ht hc).symm.trans hc?
        | many ds =>
          cases (condition?_of_membership ht hc).symm.trans hc?
          exact .among hc (ih hfs)
      · cases (condition?_of_equality ht hc).symm.trans hc?
        exact .equals hc (ih hfs)
      · cases (condition?_of_ignored ht hnone).symm.trans hc?
        exact .ignored hnone (ih hfs)
  · intro h
    induction h with
    | nil => rfl
    | among h _ ih => rw [conditions_cons, condition?_of_membership ht h, ih]; rfl
    | equals h _ ih => rw [conditions_cons, condition?_of_equality ht h, ih]; rfl
    | ignored h _ ih => rw [conditions_cons, condition?_of_ignored ht h, ih]; rfl

/-- Filters ask for one list of conditions at most. -/
theorem Asked.unique (ht : t.Named) {cs' : List Condition} (h : Asked t fs cs)
    (h' : Asked t fs cs') : cs = cs' :=
  Except.ok.inj (((conditions_eq_ok ht).mpr h).symm.trans ((conditions_eq_ok ht).mpr h'))

/-- Filters ask for some conditions when each that asks for membership comes with a list. -/
theorem exists_asked_iff (ht : t.Named) : (∃ cs, Asked t fs cs) ↔ ∀ f ∈ fs, Answerable t f := by
  constructor
  · rintro ⟨cs, h⟩
    induction h with
    | nil => exact nofun
    | among h _ ih => exact List.forall_mem_cons.mpr ⟨fun _ _ => ⟨_, rfl⟩, ih⟩
    | equals h _ ih => exact List.forall_mem_cons.mpr ⟨fun _ h' => (nomatch (h.unique ht h').2), ih⟩
    | ignored h _ ih => exact List.forall_mem_cons.mpr ⟨fun c h' => absurd h' (h c _), ih⟩
  · intro h
    induction fs with
    | nil => exact ⟨[], .nil⟩
    | cons f fs ih =>
      obtain ⟨hf, hfs⟩ := List.forall_mem_cons.mp h
      obtain ⟨cs, hcs⟩ := ih hfs
      obtain ⟨key, v⟩ := f
      rcases exists_asks_or t key with ⟨c, hc⟩ | ⟨c, hc⟩ | hnone
      · obtain ⟨ds, rfl⟩ := hf c hc
        exact ⟨_, .among hc hcs⟩
      · exact ⟨_, .equals hc hcs⟩
      · exact ⟨_, .ignored hnone hcs⟩

/-! ## Rows -/

/-- The conditions hold of the rows that meet every filter. -/
theorem Asked.holds_iff (ht : t.Named) (h : Asked t fs cs) (r : Row) :
    (∀ c ∈ cs, c.Holds r) ↔ ∀ f ∈ fs, Meets t r f := by
  induction h with
  | nil => simp
  | among h _ ih =>
    rw [List.forall_mem_cons, List.forall_mem_cons, ih]
    refine and_congr_left' ⟨fun hr => ⟨fun c hc => ?_, fun c hc => (nomatch (h.unique ht hc).2)⟩, ?_⟩
    · obtain ⟨rfl, -⟩ := h.unique ht hc
      exact ⟨_, rfl, hr⟩
    · intro hr
      obtain ⟨ds, hds, hr⟩ := hr.among _ h
      cases hds
      exact hr
  | equals h _ ih =>
    rw [List.forall_mem_cons, List.forall_mem_cons, ih]
    refine and_congr_left' ⟨fun hr => ⟨fun c hc => (nomatch (h.unique ht hc).2), fun c hc => ?_⟩, ?_⟩
    · obtain ⟨rfl, -⟩ := h.unique ht hc
      exact hr
    · exact fun hr => hr.equals _ h
  | ignored h _ ih =>
    rw [List.forall_mem_cons, ih]
    exact (and_iff_right ⟨fun c hc => absurd hc (h c _), fun c hc => absurd hc (h c _)⟩).symm

/-! ## Statements -/

namespace Statement

def conditions : Statement → List Condition
  | .select _ _ cs .. | .update _ _ cs _ | .delete _ cs => cs
  | .insert .. => []

/-- The same statement with conditions of its own. -/
def filtered (cs : List Condition) : Statement → Statement
  | .select t columns _ order limit offset lock => .select t columns cs order limit offset lock
  | .update t values _ returning => .update t values cs returning
  | .delete t _ => .delete t cs
  | .insert t values returning => .insert t values returning

end Statement

/-- The ways to build a statement that takes filters. -/
inductive Takes (t : Table) : (List (String × FilterValue) → Except Failure Statement) → Prop where
  | select (s : Lookup) : Takes t fun fs => Lookup.statement t { s with filters := fs }
  | update (vs : Values) (returning : Bool) : Takes t fun fs => updating t vs fs returning
  | delete : Takes t (deletion t)

variable {build : List (String × FilterValue) → Except Failure Statement} {st : Statement}

/-- The columns that a look-up returns. -/
def Lookup.returned (t : Table) (s : Lookup) : Except Failure (List Column) :=
  if s.columns.isEmpty then .ok t.columns else s.columns.mapM (columnNamed t)

theorem Lookup.statement_eq_ok {s : Lookup} : s.statement t = .ok st ↔
    ∃ columns cs order, s.returned t = .ok columns ∧ Sql.conditions t s.filters = .ok cs ∧
      s.orderBy.mapM (sortKey t) = .ok order ∧
      st = .select t columns cs order s.limit s.offset s.lock := by
  have heq : s.statement t = (s.returned t >>= fun columns =>
      Sql.conditions t s.filters >>= fun cs => s.orderBy.mapM (sortKey t) >>= fun order =>
        .ok (.select t columns cs order s.limit s.offset s.lock)) := by
    unfold Lookup.statement Lookup.returned
    split <;> rfl
  simp only [heq, bind_eq_ok, Except.ok.injEq, exists_and_left, eq_comm (a := st)]

/-- Filters put conditions into a statement and change nothing else about it. -/
theorem Takes.eq_ok (h : Takes t build) : build fs = .ok st ↔
    ∃ bare cs, build [] = .ok bare ∧ conditions t fs = .ok cs ∧ st = bare.filtered cs := by
  cases h with
  | select s =>
    simp only [Lookup.statement_eq_ok]
    constructor
    · rintro ⟨columns, cs, order, hcolumns, hcs, horder, rfl⟩
      exact ⟨_, cs, ⟨columns, [], order, hcolumns, rfl, horder, rfl⟩, hcs, rfl⟩
    · rintro ⟨_, cs, ⟨columns, _, order, hcolumns, -, horder, rfl⟩, hcs, rfl⟩
      exact ⟨columns, cs, order, hcolumns, hcs, horder, rfl⟩
  | update vs returning =>
    unfold updating
    rw [bind_eq_ok]
    cases unused t vs with
    | cons name names => exact ⟨fun ⟨_, _, h⟩ => (nomatch h), fun ⟨_, _, h, _⟩ => (nomatch h)⟩
    | nil =>
      constructor
      · rintro ⟨cs, hcs, hst⟩
        cases hst
        exact ⟨_, cs, rfl, hcs, rfl⟩
      · rintro ⟨_, cs, hbare, hcs, rfl⟩
        cases hbare
        exact ⟨cs, hcs, rfl⟩
  | delete =>
    unfold deletion
    rw [bind_eq_ok]
    constructor
    · rintro ⟨cs, hcs, hst⟩
      cases hst
      exact ⟨_, cs, rfl, hcs, rfl⟩
    · rintro ⟨_, cs, hbare, hcs, rfl⟩
      cases hbare
      exact ⟨cs, hcs, rfl⟩

theorem Takes.conditions_eq (h : Takes t build) (hst : build fs = .ok st) :
    conditions t fs = .ok st.conditions := by
  obtain ⟨bare, cs, hbare, hcs, rfl⟩ := h.eq_ok.mp hst
  cases h with
  | select s =>
    obtain ⟨_, _, _, -, -, -, rfl⟩ := Lookup.statement_eq_ok.mp hbare
    exact hcs
  | update vs returning =>
    cases bare with
    | update => exact hcs
    | select | delete | insert =>
      unfold updating at hbare
      cases hu : unused t vs <;> rw [hu] at hbare <;> cases hbare
  | delete =>
    cases hbare
    exact hcs

/-- The rows that a statement reaches are those that meet every filter. -/
theorem Asked.lists_iff (ht : t.Named) (h : Asked t fs cs) (d : Contents) (rows : List Row) :
    Lists d t cs rows ↔
      rows.Nodup ∧ ∀ r, r ∈ rows ↔ d t.name r ∧ ∀ f ∈ fs, Meets t r f := by
  simp only [← h.holds_iff ht]
  exact ⟨fun hl => ⟨hl.nodup, hl.mem⟩, fun hl => ⟨hl.1, hl.2⟩⟩

/-- **Filters mean what their keys say.** A statement that takes filters is the statement without
them, with the conditions that the filters ask for. It can be built when every key that asks for
membership comes with a list. The rows that it reaches are those that meet every filter, and they are
the same for the filters in another order. -/
theorem filters_mean (ht : t.Named) (h : Takes t build) (fs : List (String × FilterValue)) :
    (∀ st, build fs = .ok st ↔
      ∃ bare cs, build [] = .ok bare ∧ Asked t fs cs ∧ st = bare.filtered cs) ∧
    ((∃! cs, Asked t fs cs) ↔ ∀ f ∈ fs, Answerable t f) ∧
    ∀ st, build fs = .ok st → Asked t fs st.conditions ∧
      (∀ d rows, Lists d t st.conditions rows ↔
        rows.Nodup ∧ ∀ r, r ∈ rows ↔ d t.name r ∧ ∀ f ∈ fs, Meets t r f) ∧
      ∀ fs', fs.Perm fs' → ∃ st', build fs' = .ok st' ∧
        ∀ d rows, Lists d t st'.conditions rows ↔ Lists d t st.conditions rows := by
  have hbuild (fs : List (String × FilterValue)) (st : Statement) : build fs = .ok st ↔
      ∃ bare cs, build [] = .ok bare ∧ Asked t fs cs ∧ st = bare.filtered cs := by
    simp only [← conditions_eq_ok ht]
    exact h.eq_ok
  refine ⟨hbuild fs, ?_, fun st hst => ?_⟩
  · rw [← exists_asked_iff ht]
    exact ⟨ExistsUnique.exists, fun ⟨cs, hcs⟩ => ⟨cs, hcs, fun _ hcs' => hcs'.unique ht hcs⟩⟩
  · have hasked := (conditions_eq_ok ht).mp (h.conditions_eq hst)
    refine ⟨hasked, hasked.lists_iff ht, fun fs' hperm => ?_⟩
    have hanswerable : ∀ f ∈ fs', Answerable t f := fun f hf =>
      (exists_asked_iff ht).mp ⟨_, hasked⟩ f (hperm.mem_iff.mpr hf)
    obtain ⟨cs', hasked'⟩ := (exists_asked_iff ht).mpr hanswerable
    obtain ⟨bare, _, hbare, -⟩ := (hbuild fs st).mp hst
    have hst' := (hbuild fs' _).mpr ⟨bare, cs', hbare, hasked', rfl⟩
    refine ⟨_, hst', fun d rows => ?_⟩
    rw [((conditions_eq_ok ht).mp (h.conditions_eq hst')).lists_iff ht, hasked.lists_iff ht]
    simp only [hperm.mem_iff]

def labelled (name : String) : Column := ⟨name, .text, true, none, false, false⟩

/-- A table whose columns are named like keys. -/
def labels : Table where
  name := "label"
  columns := [labelled "tag", labelled "tag__in", labelled "__in"]
  primaryKey := ⟨none, ["tag"]⟩

theorem named_labels : labels.Named := ⟨by decide, by decide⟩

/-- The key `tag__in` asks for the column `tag`, the bare suffix for the column of that name. -/
theorem filters_mean_labels :
    deletion labels [("__in", .one (.text "c")), ("tag__in", .many [.text "a"]), ("tags", .one .null)] =
      .ok (.delete labels
        [.equals (labelled "__in") (.text "c"), .among (labelled "tag") [.text "a"]]) := by
  have hmember : Asks labels ((labelled "tag").name ++ "__in") (labelled "tag") .membership :=
    .membership (by decide)
  have hequal : Asks labels (labelled "__in").name (labelled "__in") .equality :=
    .equality (by decide) (by decide)
  have hnothing : ∀ c k, ¬ Asks labels "tags" c k := by
    intro c k h
    have hmeaning : keyMeaning? labels "tags" = none := by decide +kernel
    rw [(keyMeaning?_eq_some named_labels).mpr h] at hmeaning
    cases hmeaning
  refine ((filters_mean named_labels .delete _).1 _).mpr ⟨.delete labels [], _, rfl, ?_, rfl⟩
  exact .equals hequal (.among hmember (.ignored hnothing .nil))

end ReviewRota.Sql
