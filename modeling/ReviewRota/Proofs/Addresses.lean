import Mathlib
import ReviewRota.Settings

/-!
# What an address tells

The address of a database is made of five settings with marks between them: a colon, an at sign, a
colon, and a slash. The settings stand in it as they are, and a missing name of the database is shown as
a word. So a mark that stands in a setting can be read as the one between two settings, and the address
is then that of other settings too.

This is all that can go wrong. The address of settings is theirs alone exactly when no setting holds a
mark that could be read so and the database has a name that is not the word for none. Among settings
that can be read off from the left, the address tells them apart.
-/

namespace ReviewRota

/-! ## Marks in texts -/

namespace Text

variable {c : Char} {xs ys l r : List Char}

/-- Where a text is cut at a character that the first part does not hold, another cut is the same or
comes later. -/
theorem cut_eq_or_later (hx : c ∉ xs) (h : xs ++ c :: l = ys ++ c :: r) :
    (xs = ys ∧ l = r) ∨ ∃ between, ys = xs ++ c :: between ∧ l = between ++ c :: r := by
  rcases List.append_eq_append_iff.mp h with ⟨zs, rfl, hzs⟩ | ⟨zs, rfl, hzs⟩
  · cases zs with
    | nil => exact .inl ⟨(List.append_nil xs).symm, List.tail_eq_of_cons_eq hzs⟩
    | cons z zs =>
      obtain ⟨rfl, hl⟩ := List.cons.inj hzs
      exact .inr ⟨zs, rfl, hl⟩
  · cases zs with
    | nil => exact .inl ⟨List.append_nil ys, (List.tail_eq_of_cons_eq hzs).symm⟩
    | cons z zs =>
      obtain ⟨rfl, -⟩ := List.cons.inj hzs
      exact absurd (List.mem_append_right ys List.mem_cons_self) hx

/-- Two cuts at a character that neither of the first parts holds are the same. -/
theorem cut_eq (hx : c ∉ xs) (hy : c ∉ ys) (h : xs ++ c :: l = ys ++ c :: r) : xs = ys ∧ l = r := by
  rcases cut_eq_or_later hx h with heq | ⟨between, rfl, -⟩
  · exact heq
  · exact absurd (List.mem_append_right xs List.mem_cons_self) hy

/-- The characters of an integer. -/
def integerChars (n : Int) : List Char := (toString n).toList

theorem mem_integerChars {n : Int} (h : c ∈ integerChars n) : c.isDigit = true ∨ c = '-' := by
  rw [integerChars, Int.toString_eq_repr, Int.repr_eq_if] at h
  split at h
  · rw [Nat.repr_eq_ofList_toDigits, String.toList_ofList] at h
    exact .inl (Nat.isDigit_of_mem_toDigits (by decide) (by decide) h)
  · rw [String.toList_append] at h
    rcases List.mem_append.mp h with h | h
    · exact .inr (List.mem_singleton.mp h)
    · rw [Nat.repr_eq_ofList_toDigits, String.toList_ofList] at h
      exact .inl (Nat.isDigit_of_mem_toDigits (by decide) (by decide) h)

theorem not_mem_integerChars {n : Int} (hdigit : c.isDigit = false) (hsign : c ≠ '-') :
    c ∉ integerChars n := by
  intro h
  rcases mem_integerChars h with h | h
  · rw [hdigit] at h
    cases h
  · exact hsign h

theorem colon_not_mem_integerChars (n : Int) : ':' ∉ integerChars n :=
  not_mem_integerChars (by decide) (by decide)

theorem slash_not_mem_integerChars (n : Int) : '/' ∉ integerChars n :=
  not_mem_integerChars (by decide) (by decide)

theorem integerChars_inj {m n : Int} (h : integerChars m = integerChars n) : m = n := by
  rw [integerChars, integerChars, String.toList_inj, Int.toString_eq_repr, Int.toString_eq_repr] at h
  exact Int.repr_inj.mp h

end Text

namespace DatabaseSettings

open Text

/-- A port with the marks on both sides. -/
def portMark (n : Int) : List Char := ':' :: (integerChars n ++ ['/'])

variable {m n : Int} {a b h d zs : List Char}

/-- Two ports do not overlap: one that starts in a text before the other ends there too. -/
theorem portMark_append_eq (heq : portMark m ++ b = zs ++ (portMark n ++ d)) :
    (zs = [] ∧ m = n ∧ b = d) ∨ ∃ rest, zs = portMark m ++ rest ∧ b = rest ++ (portMark n ++ d) := by
  cases zs with
  | nil =>
    have htail : integerChars m ++ '/' :: b = integerChars n ++ '/' :: d := by
      simpa [portMark] using heq
    obtain ⟨hport, hrest⟩ := cut_eq (slash_not_mem_integerChars m) (slash_not_mem_integerChars n) htail
    exact .inl ⟨rfl, integerChars_inj hport, hrest⟩
  | cons z zs =>
    have htail : ':' = z ∧ integerChars m ++ '/' :: b = zs ++ (portMark n ++ d) := by
      simpa [portMark] using heq
    obtain ⟨rfl, htail⟩ := htail
    rcases List.append_eq_append_iff.mp htail with ⟨ws, rfl, hws⟩ | ⟨ws, hws, hrest⟩
    · cases ws with
      | nil => simp [portMark] at hws
      | cons w ws =>
        obtain ⟨rfl, hb⟩ := List.cons.inj hws
        exact .inr ⟨ws, by simp [portMark], hb⟩
    · cases ws with
      | nil => simp [portMark] at hrest
      | cons w ws =>
        obtain ⟨rfl, -⟩ := List.cons.inj hrest
        exact absurd (hws ▸ List.mem_append_right zs List.mem_cons_self) (colon_not_mem_integerChars m)

/-- Two ports in a text are the same, or one comes before the other. -/
theorem portMark_eq_or_apart (heq : a ++ (portMark m ++ b) = h ++ (portMark n ++ d)) :
    (a = h ∧ m = n ∧ b = d) ∨ (∃ rest, h = a ++ (portMark m ++ rest)) ∨ portMark m <:+: d := by
  rcases List.append_eq_append_iff.mp heq with ⟨zs, rfl, hzs⟩ | ⟨zs, rfl, hzs⟩
  · rcases portMark_append_eq hzs with ⟨rfl, hport, hb⟩ | ⟨rest, rfl, -⟩
    · exact .inl ⟨(List.append_nil a).symm, hport, hb⟩
    · exact .inr (.inl ⟨rest, rfl⟩)
  · rcases portMark_append_eq hzs with ⟨rfl, hport, hd⟩ | ⟨rest, -, rfl⟩
    · exact .inl ⟨List.append_nil h, hport.symm, hd.symm⟩
    · exact .inr (.inr ⟨rest, b, by rw [List.append_assoc]⟩)

/-! ## Addresses -/

/-- The name of the database as it is shown. -/
def shownDatabase (s : DatabaseSettings) : String := s.database.getD "None"

/-- What an address shows of the settings behind the at sign. -/
def place (s : DatabaseSettings) : List Char :=
  s.host.toList ++ (portMark s.port ++ s.shownDatabase.toList)

/-- What an address shows of the settings. -/
def target (s : DatabaseSettings) : List Char :=
  s.user.toList ++ ':' :: (s.password.toList ++ '@' :: s.place)

variable {s t : DatabaseSettings}

theorem toList_url (s : DatabaseSettings) :
    s.url.toList = "postgresql://".toList ++ (s.target ++ "?sslmode=disable".toList) := by
  have hcolon : ":".toList = [':'] := rfl
  have hat : "@".toList = ['@'] := rfl
  have hslash : "/".toList = ['/'] := rfl
  unfold url
  simp only [target, place, portMark, integerChars, shownDatabase, String.toList_append, hcolon, hat,
    hslash, List.append_assoc, List.cons_append, List.nil_append]

theorem url_eq_iff : s.url = t.url ↔ s.target = t.target := by
  rw [← String.toList_inj, toList_url, toList_url, List.append_cancel_left_eq,
    List.append_cancel_right_eq]

/-- Two settings lead to the same database as the same user. -/
structure SameTarget (s t : DatabaseSettings) : Prop where
  user : s.user = t.user
  password : s.password = t.password
  host : s.host = t.host
  port : s.port = t.port
  database : s.database = t.database

/-- Some port stands in a text, with the marks on both sides. -/
def HoldsPort (text : String) : Prop := ∃ n, portMark n <:+: text.toList

/-- No mark in the settings can be read as one between them, and the database has a name that is not
the word for none. -/
structure Unmistakable (s : DatabaseSettings) : Prop where
  user : ':' ∉ s.user.toList
  password : ':' ∉ s.password.toList ∧ '@' ∉ s.password.toList
  host : '@' ∉ s.host.toList ∧ ¬ HoldsPort s.host
  database : ∃ name, s.database = some name ∧ name ≠ "None" ∧ ¬ HoldsPort name

/-- Read from the left, each setting ends at the first mark after it, and the database has a name. -/
structure Legible (s : DatabaseSettings) : Prop where
  user : ':' ∉ s.user.toList
  password : '@' ∉ s.password.toList
  host : ':' ∉ s.host.toList
  database : s.database ≠ none

/-- Behind the at sign of unmistakable settings, no other at sign stands in front of a port. -/
theorem Unmistakable.no_later_at (hs : s.Unmistakable)
    (heq : s.place = a ++ '@' :: (h ++ (portMark m ++ b))) : False := by
  obtain ⟨name, hname, -, hport⟩ := hs.database
  have hmem : '@' ∈ a ++ '@' :: h := List.mem_append_right a List.mem_cons_self
  have hlater : (a ++ '@' :: h) ++ (portMark m ++ b) = s.place := by
    rw [heq, List.append_assoc, List.cons_append]
  rcases portMark_eq_or_apart hlater with ⟨hhost, -⟩ | ⟨rest, hhost⟩ | hin
  · exact hs.host.1 (hhost ▸ hmem)
  · exact hs.host.1 (hhost ▸ List.mem_append_left _ hmem)
  · rw [shownDatabase, hname] at hin
    exact hport ⟨m, hin⟩

theorem database_eq_of_shown {name : String} (hs : s.database = some name) (hword : name ≠ "None")
    (h : t.shownDatabase = s.shownDatabase) : t.database = s.database := by
  rw [shownDatabase, shownDatabase, hs, Option.getD_some] at h
  cases ht : t.database with
  | none =>
    rw [ht] at h
    exact absurd h.symm hword
  | some other =>
    rw [ht] at h
    rw [hs, ← h, Option.getD_some]

/-- The address of unmistakable settings is theirs alone. -/
theorem Unmistakable.sameTarget (hs : s.Unmistakable) (h : t.url = s.url) : t.SameTarget s := by
  obtain ⟨name, hname, hword, hport⟩ := hs.database
  have htarget : s.target = t.target := (url_eq_iff.mp h).symm
  -- The first colon of the address ends the user and the first at sign behind it the password: to read
  -- another one so leaves an at sign between them and the port.
  rcases cut_eq_or_later hs.user htarget with ⟨huser, htail⟩ | ⟨before, -, htail⟩
  · rcases cut_eq_or_later hs.password.2 htail with ⟨hpassword, hrest⟩ | ⟨between, -, hrest⟩
    · rcases portMark_eq_or_apart hrest.symm with ⟨hhost, hporteq, hshown⟩ | ⟨rest, hhost⟩ | hin
      · exact ⟨String.toList_inj.mp huser.symm, String.toList_inj.mp hpassword.symm,
          String.toList_inj.mp hhost, hporteq,
          database_eq_of_shown hname hword (String.toList_inj.mp hshown)⟩
      · exact absurd ⟨t.port, t.host.toList, rest, by rw [hhost, List.append_assoc]⟩ hs.host.2
      · rw [shownDatabase, hname] at hin
        exact absurd ⟨t.port, hin⟩ hport
    · exact (hs.no_later_at hrest).elim
  · have hlater : s.password.toList ++ '@' :: s.place =
        (before ++ ':' :: t.password.toList) ++ '@' :: t.place := by
      rw [htail, List.append_assoc, List.cons_append]
    rcases cut_eq_or_later hs.password.2 hlater with ⟨hpassword, -⟩ | ⟨between, -, hrest⟩
    · exact absurd (hpassword ▸ List.mem_append_right before List.mem_cons_self) hs.password.1
    · exact (hs.no_later_at hrest).elim

/-- Legible settings are read off their address from the left. -/
theorem Legible.sameTarget (hs : s.Legible) (ht : t.Legible) (h : t.url = s.url) : t.SameTarget s := by
  obtain ⟨huser, htail⟩ := cut_eq ht.user hs.user (url_eq_iff.mp h)
  obtain ⟨hpassword, htail⟩ := cut_eq ht.password hs.password htail
  have htail : t.host.toList ++ ':' :: (integerChars t.port ++ '/' :: t.shownDatabase.toList) =
      s.host.toList ++ ':' :: (integerChars s.port ++ '/' :: s.shownDatabase.toList) := by
    simpa [place, portMark] using htail
  obtain ⟨hhost, htail⟩ := cut_eq ht.host hs.host htail
  obtain ⟨hport, hshown⟩ := cut_eq (slash_not_mem_integerChars _) (slash_not_mem_integerChars _) htail
  refine ⟨String.toList_inj.mp huser, String.toList_inj.mp hpassword, String.toList_inj.mp hhost,
    integerChars_inj hport, ?_⟩
  obtain ⟨name, hname⟩ := Option.ne_none_iff_exists'.mp hs.database
  obtain ⟨other, hother⟩ := Option.ne_none_iff_exists'.mp ht.database
  rw [shownDatabase, shownDatabase, hname, hother] at hshown
  have hsame : other = name := String.toList_inj.mp hshown
  rw [hname, hother, hsame]

/-! ## Settings with the same address -/

/-- What an environment and given fields can lead to. -/
def Configured (s : DatabaseSettings) : Prop := ∃ env given, read env given = .valid s

/-- Settings are read back from their document, so no settings are out of reach. -/
theorem configured (s : DatabaseSettings) : s.Configured := by
  obtain ⟨host, password, user, database, port, least, most⟩ := s
  refine ⟨[], [("host", .text host), ("password", .text password), ("user", .text user),
    ("database", (database.map Json.text).getD .null), ("port", .int port), ("min_pool_size", .int least),
    ("pool_size", .int most)], ?_⟩
  cases database <;> rfl

/-- A part of a text is another text. -/
theorem ofList_ne {text : String} (h : a.length < text.toList.length) : String.ofList a ≠ text := by
  rintro rfl
  simp at h

theorem HoldsPort.exists_cut {text : String} (h : HoldsPort text) :
    ∃ a n b, text.toList = a ++ (portMark n ++ b) := by
  obtain ⟨n, a, b, h⟩ := h
  exact ⟨a, n, b, by rw [← h, List.append_assoc]⟩

/-- A port brings a colon with it. -/
theorem not_holdsPort {text : String} (h : ':' ∉ text.toList) : ¬ HoldsPort text := by
  intro hport
  obtain ⟨a, n, b, hcut⟩ := hport.exists_cut
  exact h (hcut ▸ List.mem_append_right a List.mem_cons_self)

/-- Settings with another target have the same address. -/
def Ambiguous (s : DatabaseSettings) : Prop := ∃ t : DatabaseSettings, t.url = s.url ∧ ¬ t.SameTarget s

theorem ambiguous_of_colon_in_user (hmem : ':' ∈ s.user.toList) : s.Ambiguous := by
  obtain ⟨a, b, h⟩ := List.append_of_mem hmem
  let t := { s with user := .ofList a, password := .ofList (b ++ ':' :: s.password.toList) }
  have hurl : t.url = s.url := url_eq_iff.mpr (by simp [t, target, place, shownDatabase, h])
  exact ⟨t, hurl, fun hsame => ofList_ne (by simp [h]) hsame.user⟩

theorem ambiguous_of_colon_in_password (hmem : ':' ∈ s.password.toList) : s.Ambiguous := by
  obtain ⟨a, b, h⟩ := List.append_of_mem hmem
  let t := { s with user := .ofList (s.user.toList ++ ':' :: a), password := .ofList b }
  have hurl : t.url = s.url := url_eq_iff.mpr (by simp [t, target, place, shownDatabase, h])
  exact ⟨t, hurl, fun hsame => ofList_ne (by simp [h]; omega) hsame.password⟩

theorem ambiguous_of_at_in_password (hmem : '@' ∈ s.password.toList) : s.Ambiguous := by
  obtain ⟨a, b, h⟩ := List.append_of_mem hmem
  let t := { s with password := .ofList a, host := .ofList (b ++ '@' :: s.host.toList) }
  have hurl : t.url = s.url := url_eq_iff.mpr (by simp [t, target, place, shownDatabase, h])
  exact ⟨t, hurl, fun hsame => ofList_ne (by simp [h]) hsame.password⟩

theorem ambiguous_of_at_in_host (hmem : '@' ∈ s.host.toList) : s.Ambiguous := by
  obtain ⟨a, b, h⟩ := List.append_of_mem hmem
  let t := { s with password := .ofList (s.password.toList ++ '@' :: a), host := .ofList b }
  have hurl : t.url = s.url := url_eq_iff.mpr (by simp [t, target, place, shownDatabase, h])
  exact ⟨t, hurl, fun hsame => ofList_ne (by simp [h]; omega) hsame.host⟩

/-- The port in the host is read as the port, and all that follows as the name of the database. -/
theorem ambiguous_of_port_in_host (hport : HoldsPort s.host) : s.Ambiguous := by
  obtain ⟨a, n, b, h⟩ := hport.exists_cut
  let t := { s with
    host := .ofList a
    port := n
    database := some (.ofList (b ++ (portMark s.port ++ s.shownDatabase.toList))) }
  have hurl : t.url = s.url := url_eq_iff.mpr (by simp [t, target, place, shownDatabase, h])
  exact ⟨t, hurl, fun hsame => ofList_ne (by simp [h, portMark]) hsame.host⟩

/-- The port in the name of the database is read as the port, and all that precedes it as the host. -/
theorem ambiguous_of_port_in_database {name : String} (hname : s.database = some name)
    (hport : HoldsPort name) : s.Ambiguous := by
  obtain ⟨a, n, b, h⟩ := hport.exists_cut
  let t := { s with
    host := .ofList (s.host.toList ++ (portMark s.port ++ a))
    port := n
    database := some (.ofList b) }
  have hurl : t.url = s.url := url_eq_iff.mpr (by simp [t, target, place, shownDatabase, hname, h])
  refine ⟨t, hurl, fun hsame => ?_⟩
  exact ofList_ne (by simp [h, portMark]; omega) (Option.some.inj (hsame.database.trans hname))

theorem ambiguous_of_no_database (hnone : s.database = none) : s.Ambiguous := by
  let t := { s with database := some "None" }
  have hurl : t.url = s.url := url_eq_iff.mpr (by simp [t, target, place, shownDatabase, hnone])
  exact ⟨t, hurl, fun hsame => nomatch hsame.database.trans hnone⟩

theorem ambiguous_of_word (hword : s.database = some "None") : s.Ambiguous := by
  let t := { s with database := none }
  have hurl : t.url = s.url := url_eq_iff.mpr (by simp [t, target, place, shownDatabase, hword])
  exact ⟨t, hurl, fun hsame => nomatch hsame.database.trans hword⟩

/-- Each mark that can be read as one between settings makes the address that of others too. -/
theorem unmistakable_of_not_ambiguous (h : ¬ s.Ambiguous) : s.Unmistakable where
  user hmem := h (ambiguous_of_colon_in_user hmem)
  password := ⟨fun hmem => h (ambiguous_of_colon_in_password hmem),
    fun hmem => h (ambiguous_of_at_in_password hmem)⟩
  host := ⟨fun hmem => h (ambiguous_of_at_in_host hmem), fun hport => h (ambiguous_of_port_in_host hport)⟩
  database := by
    cases hdatabase : s.database with
    | none => exact absurd (ambiguous_of_no_database hdatabase) h
    | some name =>
      refine ⟨name, rfl, ?_, fun hport => h (ambiguous_of_port_in_database hdatabase hport)⟩
      rintro rfl
      exact h (ambiguous_of_word hdatabase)

/-- **What an address tells.** The address of settings is that of no settings with another target
exactly when they are unmistakable; and among legible settings it tells the targets apart. -/
theorem url_identifies (s : DatabaseSettings) :
    ((∀ t : DatabaseSettings, t.Configured → t.url = s.url → t.SameTarget s) ↔ s.Unmistakable) ∧
      (s.Legible → ∀ t : DatabaseSettings, t.Legible → t.url = s.url → t.SameTarget s) := by
  refine ⟨⟨fun alone => ?_, fun hs _ _ h => hs.sameTarget h⟩, fun hs _ ht h => hs.sameTarget ht h⟩
  apply unmistakable_of_not_ambiguous
  rintro ⟨t, hurl, hother⟩
  exact hother (alone t t.configured hurl)

example : ({ usual with user := "a:b", password := "c" } : DatabaseSettings).url =
    ({ usual with user := "a", password := "b:c" } : DatabaseSettings).url := by decide

/-- The address of the settings in an environment without variables is theirs alone, and they are not
the only ones that can be read off from the left. -/
theorem url_identifies_usual :
    (∀ t : DatabaseSettings, t.Configured → t.url = usual.url → t.SameTarget usual) ∧
      ∀ t : DatabaseSettings, t.Legible → t.url = usual.url → t.SameTarget usual := by
  have hunmistakable : usual.Unmistakable :=
    ⟨by decide, by decide, ⟨by decide, not_holdsPort (by decide)⟩,
      "reviewers", rfl, by decide, not_holdsPort (by decide)⟩
  have hlegible : usual.Legible := ⟨by decide, by decide, by decide, by decide⟩
  exact ⟨(url_identifies usual).1.mpr hunmistakable, (url_identifies usual).2 hlegible⟩

end DatabaseSettings

end ReviewRota
