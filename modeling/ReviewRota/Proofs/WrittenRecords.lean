import Mathlib.Data.List.Forall2
import Mathlib.Data.List.Basic
import ReviewRota.Logging

/-!
# What is written to the log

An event is written when it has the level that its logger asks for. The loggers of two libraries, and
all below them, ask for warnings, whatever the settings say; every other logger asks for the level of
the settings. So the level of the settings is a floor for all records except those of the libraries,
whose warnings are written even when the settings ask for errors.

Whether a logger stands below a library is settled by its name alone, with one exception: where the
name of a library is followed by two dots, it depends on the loggers in between. Such a logger asks
for one of the two levels.

The records show the events that are written, in their order, under the name and the version of the
program, and a higher level in the settings never leads to a further record.
-/

namespace ReviewRota.Logging

variable {s : AppSettings} {e : Entry} {es : List Entry} {name other : String} {root l : Level}
  {loggers : List String} {g g' : Registry}

/-! ## Loggers -/

/-- The logger is another one, or its name goes on from the name of the other with a single dot. -/
def AtOrBelow (name other : String) : Prop :=
  name = other ∨ ∃ rest : String, name = other ++ "." ++ rest ∧ rest.toList.head? ≠ some '.'

/-- The loggers of the libraries that ask for warnings. -/
def OfLibrary (name : String) : Prop := AtOrBelow name "databases" ∨ AtOrBelow name "httpx"

/-- The name goes on from the name of a library with two dots. -/
def Doubtful (name : String) : Prop :=
  ∃ rest, name = "databases" ++ ".." ++ rest ∨ name = "httpx" ++ ".." ++ rest

/-- The levels that a logger can ask for, whatever other loggers there are. -/
structure CanAskFor (root : Level) (name : String) (l : Level) : Prop where
  library : OfLibrary name → l = .warning
  other : ¬ OfLibrary name → ¬ Doubtful name → l = root
  either : l = .warning ∨ l = root

section Above
variable {exist : List Char → Bool} {p cs : List Char}

theorem of_mem_above (h : p ∈ above exist cs) : ∃ u, cs = u ++ '.' :: p := by
  induction cs using above.induct exist with
  | case1 c rest hc ih =>
    rw [above, if_pos rfl, if_pos hc, List.mem_cons] at h
    obtain rfl | h := h
    · exact ⟨[], rfl⟩
    · obtain ⟨u, hu⟩ := ih h
      exact ⟨'.' :: u, congrArg ('.' :: ·) hu⟩
  | case2 c rest hc ih =>
    rw [above, if_pos rfl, if_neg hc] at h
    obtain ⟨u, hu⟩ := ih h
    exact ⟨'.' :: c :: u, congrArg ('.' :: c :: ·) hu⟩
  | case3 d c rest hd ih =>
    rw [above, if_neg hd] at h
    obtain ⟨u, hu⟩ := ih h
    exact ⟨d :: u, congrArg (d :: ·) hu⟩
  | case4 cs hcs =>
    rw [above] at h
    · cases h
    · exact hcs

theorem getLast?_ne_of_cons {c d : Char} {u : List Char} (h : (d :: u).getLast? ≠ some c) :
    u.getLast? ≠ some c := by
  cases u with
  | nil => simp
  | cons x u => rwa [List.getLast?_cons_cons] at h

/-- A name is found unless a dot follows the dot after it, that is, precedes it backwards. -/
theorem mem_above (hp : exist p = true) (hne : p ≠ []) {u : List Char} (hcs : cs = u ++ '.' :: p)
    (hu : u.getLast? ≠ some '.') : p ∈ above exist cs := by
  induction cs using above.induct exist generalizing u with
  | case1 c rest hc ih =>
    rw [above, if_pos rfl, if_pos hc, List.mem_cons]
    obtain _ | ⟨x, u⟩ := u
    · exact .inl (List.cons.inj hcs).2.symm
    · exact .inr (ih (List.cons.inj hcs).2 (getLast?_ne_of_cons hu))
  | case2 c rest hc ih =>
    rw [above, if_pos rfl, if_neg hc]
    -- the search passes over `c`, so `c` must belong to what follows the name that is looked for
    obtain _ | ⟨x, _ | ⟨y, u⟩⟩ := u
    · rw [(List.cons.inj hcs).2] at hc
      exact absurd hp hc
    · rw [← (List.cons.inj hcs).1] at hu
      exact absurd rfl hu
    · exact ih (List.cons.inj (List.cons.inj hcs).2).2 (getLast?_ne_of_cons (getLast?_ne_of_cons hu))
  | case3 d c rest hd ih =>
    rw [above, if_neg hd]
    obtain _ | ⟨x, u⟩ := u
    · exact absurd (List.cons.inj hcs).1 hd
    · exact ih (List.cons.inj hcs).2 (getLast?_ne_of_cons hu)
  | case4 cs hcs' =>
    exfalso
    obtain _ | ⟨x, u⟩ := u
    · obtain ⟨c, p, rfl⟩ := List.exists_cons_of_ne_nil hne
      exact hcs' '.' c p hcs
    · obtain _ | ⟨y, u⟩ := u
      · exact hcs' x '.' p hcs
      · exact hcs' x y (u ++ '.' :: p) hcs

end Above

theorem of_mem_lineage (h : other ∈ lineage loggers name) :
    name = other ∨ ∃ rest, name = other ++ "." ++ rest := by
  rw [lineage, List.mem_cons, List.mem_map] at h
  obtain rfl | ⟨p, hp, rfl⟩ := h
  · exact .inl rfl
  · obtain ⟨u, hu⟩ := of_mem_above hp
    refine .inr ⟨ofBackwards u, ?_⟩
    rw [← String.toList_inj, ← List.reverse_inj, hu]
    simp [ofBackwards]

theorem mem_lineage (h : AtOrBelow name other) (hother : other ∈ loggers) (hne : other ≠ "") :
    other ∈ lineage loggers name := by
  rw [lineage, List.mem_cons, List.mem_map]
  obtain rfl | ⟨rest, rfl, hrest⟩ := h
  · exact .inl rfl
  · have hback : ofBackwards other.toList.reverse = other := by
      rw [ofBackwards, List.reverse_reverse, String.ofList_toList]
    refine .inr ⟨other.toList.reverse, mem_above (u := rest.toList.reverse) ?_ ?_ ?_ ?_, hback⟩
    · rw [hback]
      exact List.contains_iff_mem.mpr hother
    · simpa using hne
    · simp
    · rwa [List.getLast?_reverse]

theorem lookup_ownLevels (name : String) :
    ownLevels.lookup name = if name = "databases" ∨ name = "httpx" then some .warning else none := by
  rw [ownLevels, List.lookup_cons, List.lookup_cons, List.lookup_nil]
  grind

theorem threshold_of_mem (h : "databases" ∈ lineage loggers name ∨ "httpx" ∈ lineage loggers name) :
    threshold root loggers name = .warning := by
  have hown : ∃ l, (lineage loggers name).findSome? (fun n => ownLevels.lookup n) = some l := by
    rw [← Option.isSome_iff_exists, List.findSome?_isSome_iff]
    rcases h with h | h
    · exact ⟨_, h, rfl⟩
    · exact ⟨_, h, rfl⟩
  obtain ⟨l, hl⟩ := hown
  obtain ⟨n, -, hn⟩ := List.exists_of_findSome?_eq_some hl
  rw [lookup_ownLevels, Option.ite_none_right_eq_some] at hn
  rw [threshold, hl, ← hn.2]
  rfl

theorem threshold_of_not_mem (hdatabases : "databases" ∉ lineage loggers name)
    (hhttpx : "httpx" ∉ lineage loggers name) : threshold root loggers name = root := by
  have hnone : (lineage loggers name).findSome? (fun n => ownLevels.lookup n) = none := by
    rw [List.findSome?_eq_none_iff]
    intro n hn
    rw [lookup_ownLevels, if_neg]
    rintro (rfl | rfl)
    · exact hdatabases hn
    · exact hhttpx hn
  rw [threshold, hnone]
  rfl

/-- A logger above another one names it up to a single dot or up to the first of two. -/
theorem belongs_of_mem (h : other ∈ lineage loggers name) :
    AtOrBelow name other ∨ ∃ rest, name = other ++ ".." ++ rest := by
  obtain rfl | ⟨rest, rfl⟩ := of_mem_lineage h
  · exact .inl (.inl rfl)
  · by_cases hdot : rest.toList.head? = some '.'
    · obtain ⟨cs, hcs⟩ := List.head?_eq_some_iff.mp hdot
      refine .inr ⟨String.ofList cs, ?_⟩
      rw [← String.toList_inj]
      simp [hcs]
    · exact .inl (.inr ⟨rest, rfl, hdot⟩)

/-- **What a logger asks for is settled by its name**, unless that is doubtful. -/
theorem canAskFor_threshold (hmade : ∀ own ∈ ownLevels.map Prod.fst, own ∈ loggers) :
    CanAskFor root name (threshold root loggers name) where
  library h := by
    refine threshold_of_mem (h.imp (fun h => ?_) (fun h => ?_))
    · exact mem_lineage h (hmade _ (by decide)) (by decide)
    · exact mem_lineage h (hmade _ (by decide)) (by decide)
  other hlib hdoubt := by
    refine threshold_of_not_mem (fun h => ?_) (fun h => ?_)
    · obtain h | ⟨rest, h⟩ := belongs_of_mem h
      · exact hlib (.inl h)
      · exact hdoubt ⟨rest, .inl h⟩
    · obtain h | ⟨rest, h⟩ := belongs_of_mem h
      · exact hlib (.inr h)
      · exact hdoubt ⟨rest, .inr h⟩
  either := by
    by_cases h : "databases" ∈ lineage loggers name ∨ "httpx" ∈ lineage loggers name
    · exact .inl (threshold_of_mem h)
    · exact .inr (threshold_of_not_mem (fun hd => h (.inl hd)) fun hh => h (.inr hh))

theorem threshold_le (hle : root.rank ≤ l.rank) :
    (threshold root loggers name).rank ≤ (threshold l loggers name).rank := by
  rw [threshold, threshold]
  cases (lineage loggers name).findSome? fun n => ownLevels.lookup n with
  | some own => exact Nat.le_refl _
  | none => exact hle

/-! ## Decisions -/

/-- An event has a level that its logger can ask for. -/
def Reaches (root : Level) (e : Entry) : Prop := ∃ l, CanAskFor root e.logger l ∧ l.rank ≤ e.level.rank

/-- An event has every level that its logger can ask for. -/
def SurelyReaches (root : Level) (e : Entry) : Prop :=
  ∀ l, CanAskFor root e.logger l → l.rank ≤ e.level.rank

/-- Unless the name of the logger is doubtful there is one level that it can ask for. -/
theorem Reaches.surely (h : Reaches root e) (hdoubt : ¬ Doubtful e.logger) : SurelyReaches root e := by
  obtain ⟨l, hl, hle⟩ := h
  intro l' hl'
  by_cases hlib : OfLibrary e.logger
  · rwa [hl'.library hlib, ← hl.library hlib]
  · rwa [hl'.other hlib hdoubt, ← hl.other hlib hdoubt]

/-- The libraries have their loggers, and all decisions go by levels that the loggers can ask for. -/
structure Registry.Sound (root : Level) (g : Registry) : Prop where
  made : ∀ own ∈ ownLevels.map Prod.fst, own ∈ g.loggers
  decided : ∀ name level b, g.decisions.lookup (name, level) = some b →
    ∃ l, CanAskFor root name l ∧ b = decide (l.rank ≤ level.rank)

namespace Registry

theorem sound_new : Sound root {} where
  made _ h := h
  decided _ _ _ h := nomatch h

theorem Sound.enter (h : g.Sound root) (e : Entry) : (g.enter e).Sound root where
  made own hown := List.mem_cons_of_mem _ (List.mem_append_right _ (h.made own hown))
  decided := h.decided

theorem Sound.decision (h : g.Sound root) (e : Entry) :
    ∃ l, CanAskFor root e.logger l ∧ g.decision root e = decide (l.rank ≤ e.level.rank) := by
  rw [Registry.decision]
  cases hdec : g.decisions.lookup (e.logger, e.level) with
  | some b => exact h.decided _ _ b hdec
  | none => exact ⟨_, canAskFor_threshold h.made, rfl⟩

theorem Sound.settle (h : g.Sound root) (e : Entry) : (g.settle root e).Sound root where
  made := h.made
  decided name level b hb := by
    rw [Registry.settle, List.lookup_cons] at hb
    split at hb
    · rename_i hkey
      obtain ⟨rfl, rfl⟩ := Prod.mk.inj (eq_of_beq hkey)
      rw [← Option.some.inj hb]
      exact h.decision e
    · exact h.decided name level b hb

/-- What one registry lets through, another one of the same loggers does as well. -/
structure Laxer (g g' : Registry) : Prop where
  loggers : g.loggers = g'.loggers
  decided : ∀ key, Option.Rel (fun b b' => b' = true → b = true) (g.decisions.lookup key)
    (g'.decisions.lookup key)

theorem Laxer.enter (h : g.Laxer g') (e : Entry) : (g.enter e).Laxer (g'.enter e) where
  loggers := congrArg (e.logger :: e.made ++ ·) h.loggers
  decided := h.decided

theorem Laxer.decision (h : g.Laxer g') (hle : root.rank ≤ l.rank) (e : Entry)
    (hpass : g'.decision l e = true) : g.decision root e = true := by
  rw [Registry.decision] at hpass ⊢
  have hdec := h.decided (e.logger, e.level)
  generalize g.decisions.lookup (e.logger, e.level) = d at hdec ⊢
  generalize g'.decisions.lookup (e.logger, e.level) = d' at hdec hpass
  cases hdec with
  | some hb => exact hb hpass
  | none =>
    rw [Option.getD_none, decide_eq_true_eq] at hpass ⊢
    rw [h.loggers]
    exact Nat.le_trans (threshold_le hle) hpass

theorem Laxer.settle (h : g.Laxer g') (hle : root.rank ≤ l.rank) (e : Entry) :
    (g.settle root e).Laxer (g'.settle l e) where
  loggers := h.loggers
  decided key := by
    rw [Registry.settle, Registry.settle, List.lookup_cons, List.lookup_cons]
    split
    · exact .some (h.decision hle e)
    · exact h.decided key

end Registry

theorem kept_sublist : ∀ (es : List Entry) (g : Registry), (kept root g es).Sublist es
  | [], _ => .slnil
  | e :: es, g => by
    rw [kept]
    split
    · exact (kept_sublist es _).cons_cons e
    · exact (kept_sublist es _).cons e

theorem reaches_of_mem_kept (h : g.Sound root) (he : e ∈ kept root g es) : Reaches root e := by
  induction es generalizing g with
  | nil => cases he
  | cons first es ih =>
    have hnext := (h.enter first).settle first
    rw [kept] at he
    split at he
    · rename_i hpass
      obtain rfl | he := List.mem_cons.mp he
      · obtain ⟨l, hl, hdec⟩ := (h.enter e).decision e
        exact ⟨l, hl, of_decide_eq_true (hdec ▸ hpass)⟩
      · exact ih hnext he
    · exact ih hnext he

theorem sublist_kept (h : g.Sound root) {events : List Entry} (hsub : events.Sublist es)
    (hreach : ∀ e ∈ events, SurelyReaches root e) : events.Sublist (kept root g es) := by
  induction hsub generalizing g with
  | slnil => exact .slnil
  | cons e _ ih =>
    have hlater := ih ((h.enter e).settle e) hreach
    rw [kept]
    split
    · exact hlater.cons e
    · exact hlater
  | cons_cons e _ ih =>
    have hlater := ih ((h.enter e).settle e) fun e he => hreach e (List.mem_cons_of_mem _ he)
    obtain ⟨l, hl, hdec⟩ := (h.enter e).decision e
    rw [kept, if_pos (hdec.trans (decide_eq_true (hreach e List.mem_cons_self l hl)))]
    exact hlater.cons_cons e

theorem kept_sublist_kept (h : g.Laxer g') (hle : root.rank ≤ l.rank) :
    (kept l g' es).Sublist (kept root g es) := by
  induction es generalizing g g' with
  | nil => exact .slnil
  | cons e es ih =>
    have hlater := ih ((h.enter e).settle hle e)
    rw [kept, kept]
    split
    · rename_i hpass
      rw [if_pos ((h.enter e).decision hle e hpass)]
      exact hlater.cons_cons e
    · split
      · exact hlater.cons e
      · exact hlater

/-! ## Records -/

/-- The fields that logging sets or takes away, whatever an event has under these names. The trace of
calls that an event asks for by `stack_info` is its `stack`. -/
def reserved : List Json.Name := hidden.append ["event", "level", "logger", "app", "version", "stack"]

/-- A record shows an event. -/
structure Shows (s : AppSettings) (e : Entry) (r : Json.Fields) : Prop where
  words : r.value? "event" = some (.text e.words)
  level : r.value? "level" = some (.text e.level.word)
  logger : r.value? "logger" = some (.text (shownName e.logger))
  app : r.value? "app" = some (.text s.name)
  version : r.value? "version" = some (.text s.version)
  others : ∀ name, name ∉ reserved → r.value? name = e.fields.value? name

theorem shows_record (s : AppSettings) (e : Entry) : Shows s e (record s e) where
  words := by simp [record, withContext]
  level := by simp [record, withContext]
  logger := by simp [record, withContext]
  app := by simp [record, withContext]
  version := by simp [record, withContext]
  others name h := by
    simp only [reserved, List.append_eq, List.mem_append, List.mem_cons, List.not_mem_nil, or_false,
      not_or] at h
    simp [record, withContext, isHidden, h]

/-- A logger whose name has two dots after the name of a library asks for the level of the settings,
unless there is a logger in between. -/
example : (kept .info {} [⟨"databases..x", .info, "ready", .empty, []⟩]).length = 1 ∧
    (kept .info {} [⟨"databases..x", .info, "ready", .empty, ["databases."]⟩]).length = 0 := by
  decide +kernel

/-- Settings that ask for errors. -/
def strict : AppSettings := ⟨"reviewer-assignment", "0.1.0", .error, true⟩

/-- A warning of a library below settings that ask for errors, and one of another logger. -/
def warnings : List Entry :=
  [⟨"databases.core", .warning, "slow", .empty, []⟩, ⟨"databases_core", .warning, "slow", .empty, []⟩]

end ReviewRota.Logging
