import Mathlib.Data.List.Induction
import Mathlib.Data.List.TakeWhile
import Mathlib.Data.String.Basic
import ReviewRota.Identifier
import ReviewRota.Text.Blank

/-!
# Spellings

What the readers of texts make of a text, without a word about how they do it. The trimming of a
text is the part of it that has no blank at its ends, with nothing but blanks around it. A run of
hexadecimal digits in either case is the number whose digits come out when it is put in lower case.
An identifier has four spellings, all of them its thirty-two digits in one frame or another, and a
text that is none of the four spells no identifier.
-/

namespace ReviewRota

namespace Text

/-! ## Trimmed texts -/

/-- No blank at either end. -/
def Trimmed (cs : List Char) : Prop :=
  (∀ c ∈ cs.head?, isBlank c = false) ∧ ∀ c ∈ cs.getLast?, isBlank c = false

variable {cs ts before after : List Char}

/-- Blanks in front are dropped up to the first character that is none. -/
theorem dropWhile_isBlank_append (hbefore : ∀ c ∈ before, isBlank c = true)
    (hts : ∀ c ∈ ts.head?, isBlank c = false) : (before ++ ts).dropWhile isBlank = ts := by
  rw [List.dropWhile_append_of_pos hbefore]
  cases ts with
  | nil => rfl
  | cons c ts => exact List.dropWhile_cons_of_neg (by simp [hts c rfl])

theorem exists_append_dropWhile (cs : List Char) :
    ∃ before, cs = before ++ cs.dropWhile isBlank ∧ (∀ c ∈ before, isBlank c = true) ∧
      ∀ c ∈ (cs.dropWhile isBlank).head?, isBlank c = false := by
  refine ⟨cs.takeWhile isBlank, List.takeWhile_append_dropWhile.symm,
    fun c hc => List.mem_takeWhile_imp hc, fun c hc => ?_⟩
  have hnot := List.head?_dropWhile_not isBlank cs
  rw [hc] at hnot
  exact hnot

/-- The trimming of a text is the text without the blanks around it. -/
theorem trimChars_eq_iff : trimChars cs = ts ↔ Trimmed ts ∧ ∃ before after,
    cs = before ++ ts ++ after ∧ (∀ c ∈ before, isBlank c = true) ∧
      ∀ c ∈ after, isBlank c = true := by
  constructor
  · rintro rfl
    obtain ⟨before, hcs, hbefore, hhead⟩ := exists_append_dropWhile cs
    obtain ⟨after, hrest, hafter, hlast⟩ :=
      exists_append_dropWhile (cs.dropWhile isBlank).reverse
    -- What is left after the first pass ends with the blanks that the second pass drops.
    have hsplit : cs.dropWhile isBlank = trimChars cs ++ after.reverse := by
      rw [trimChars, ← List.reverse_append, ← hrest, List.reverse_reverse]
    refine ⟨⟨fun c hc => hhead c ?_, fun c hc => hlast c ?_⟩, before, after.reverse,
      by rw [List.append_assoc, ← hsplit, ← hcs], hbefore,
      fun c hc => hafter c (List.mem_reverse.mp hc)⟩
    · rw [hsplit, List.head?_append, hc]
      rfl
    · rwa [trimChars, List.getLast?_reverse] at hc
  · rintro ⟨⟨hhead, hlast⟩, before, after, rfl, hbefore, hafter⟩
    cases hts : ts with
    | nil =>
      have hblank : ∀ c ∈ before ++ [] ++ after, isBlank c = true := by
        simpa using fun c hc => hc.elim (hbefore c) (hafter c)
      rw [trimChars, List.dropWhile_eq_nil_iff.mpr hblank]
      rfl
    | cons c rest =>
      rw [← hts, trimChars, List.append_assoc, dropWhile_isBlank_append hbefore,
        List.reverse_append, dropWhile_isBlank_append, List.reverse_reverse]
      · exact fun c hc => hafter c (List.mem_reverse.mp hc)
      · rwa [List.head?_reverse]
      · rwa [hts, List.cons_append, List.head?_cons, ← List.head?_cons, ← hts]

theorem trimmed_trimChars (cs : List Char) : Trimmed (trimChars cs) :=
  (trimChars_eq_iff.mp rfl).1

/-- A text is its own trimming exactly when it has no blank at its ends. -/
theorem trimChars_eq_self : trimChars cs = cs ↔ Trimmed cs := by
  refine ⟨fun h => (trimChars_eq_iff.mp h).1, fun h => trimChars_eq_iff.mpr ⟨h, [], [], ?_⟩⟩
  simp

theorem trim_eq_self {s : String} : trim s = s ↔ Trimmed s.toList := by
  rw [← trimChars_eq_self, trim, String.ofList_eq]

@[simp] theorem trim_trim (s : String) : trim (trim s) = trim s := by
  rw [trim_eq_self, trim, String.toList_ofList]
  exact trimmed_trimChars _

/-! ## Hexadecimal digits -/

/-- Of the characters in ASCII, the digits are those whose lower case is one. -/
theorem hexValue?_ascii : ∀ n < 128,
    (∀ v ∈ hexValue? (Char.ofNat n), v < 16 ∧ (Char.ofNat n).toLower = hexDigit v) ∧
      ∀ v < 16, (Char.ofNat n).toLower = hexDigit v → hexValue? (Char.ofNat n) = some v := by
  decide +kernel

theorem hexDigit_toNat_lt : ∀ v < 16, (hexDigit v).toNat < 128 := by decide

/-- A character is a digit when its lower case is one. -/
theorem hexValue?_eq_some {c : Char} {v : Nat} :
    hexValue? c = some v ↔ v < 16 ∧ c.toLower = hexDigit v := by
  by_cases hc : c.toNat < 128
  · have hascii := hexValue?_ascii c.toNat hc
    rw [Char.ofNat_toNat] at hascii
    exact ⟨hascii.1 v, fun h => hascii.2 v h.1 h.2⟩
  · have hle : ∀ d : Char, d.toNat < 128 → ¬ c ≤ d := fun d hd hcd =>
      hc (Nat.lt_of_le_of_lt hcd hd)
    have hnone : hexValue? c = none := by
      simp [hexValue?, hle '9' (by decide), hle 'f' (by decide), hle 'F' (by decide)]
    have hlower : c.toLower = c := dif_neg fun h => hle 'Z' (by decide) h.2
    rw [hnone, hlower]
    refine ⟨nofun, fun h => absurd (h.2 ▸ hexDigit_toNat_lt v h.1) hc⟩

theorem hexDigits_succ (w n : Nat) :
    hexDigits (w + 1) n = hexDigits w (n / 16) ++ [hexDigit (n % 16)] := by
  unfold hexDigits
  rw [List.range_succ, List.map_append, List.map_singleton]
  congr 1
  · refine List.map_congr_left fun i hi => ?_
    have hi : i < w := List.mem_range.mp hi
    have hplaces : 4 * (w + 1 - 1 - i) = 4 + 4 * (w - 1 - i) := by omega
    rw [hplaces, Nat.shiftRight_add, Nat.shiftRight_eq_div_pow n 4]
  · simp

@[simp] theorem length_hexDigits (w n : Nat) : (hexDigits w n).length = w := by
  simp [hexDigits]

/-- The first digits and the last one are read on their own. -/
theorem hexNumber?_concat (cs : List Char) (c : Char) :
    hexNumber? (cs ++ [c]) =
      (hexNumber? cs).bind fun n => (hexValue? c).map (16 * n + ·) := by
  simp [hexNumber?, List.foldlM_append]

/-- A run of digits is the number whose digits it is once it is put in lower case. -/
theorem hexNumber?_eq_some {cs : List Char} {n : Nat} : hexNumber? cs = some n ↔
    n < 16 ^ cs.length ∧ cs.map Char.toLower = hexDigits cs.length n := by
  induction cs using List.reverseRecOn generalizing n with
  | nil =>
    show some 0 = some n ↔ n < 1 ∧ [] = []
    simp [eq_comm]
  | append_singleton cs c ih =>
    rw [hexNumber?_concat, List.length_append, List.length_singleton, hexDigits_succ,
      List.map_append, List.map_singleton, List.append_singleton_inj]
    simp only [Option.bind_eq_some_iff, Option.map_eq_some_iff, ih, hexValue?_eq_some]
    constructor
    · rintro ⟨m, ⟨hm, hcs⟩, v, ⟨hv, hc⟩, rfl⟩
      have hdiv : (16 * m + v) / 16 = m := by omega
      have hmod : (16 * m + v) % 16 = v := by omega
      rw [hdiv, hmod, Nat.pow_succ]
      exact ⟨by omega, hcs, hc⟩
    · rintro ⟨hn, hcs, hc⟩
      rw [Nat.pow_succ] at hn
      exact ⟨n / 16, ⟨by omega, hcs⟩, n % 16, ⟨Nat.mod_lt _ (by decide), hc⟩, Nat.div_add_mod n 16⟩

end Text

namespace Identifier
variable {i : Identifier} {cs ds : List Char}

/-! ## Identifiers -/

@[simp] theorem length_digits (i : Identifier) : i.digits.length = 32 := Text.length_hexDigits _ _

theorem length_of_digits (h : ds.map Char.toLower = i.digits) : ds.length = 32 := by
  rw [← List.length_map Char.toLower, h, length_digits]

theorem ofNat_toNat (i : Identifier) : ofNat i.toNat = i := by
  simp [ofNat, toNat]

theorem ofDigits?_eq_some : ofDigits? ds = some i ↔ ds.map Char.toLower = i.digits := by
  constructor
  · intro h
    obtain ⟨hlength, hnumber⟩ := Option.ite_none_right_eq_some.mp h
    obtain ⟨n, hn, rfl⟩ := Option.map_eq_some_iff.mp hnumber
    obtain ⟨hlt, hdigits⟩ := Text.hexNumber?_eq_some.mp hn
    rw [hlength] at hlt hdigits
    have hn : (ofNat n).toNat = n := Nat.mod_eq_of_lt hlt
    rw [hdigits, digits, hn]
  · intro h
    have hlength := length_of_digits h
    have hn : Text.hexNumber? ds = some i.toNat :=
      Text.hexNumber?_eq_some.mpr ⟨hlength ▸ i.bits.isLt, by rw [h, digits, hlength]⟩
    rw [ofDigits?, if_pos hlength, hn, Option.map_some, ofNat_toNat]

/-- Five runs of characters of the lengths of the groups. -/
structure Groups (a b c d e : List Char) : Prop where
  first : a.length = 8
  second : b.length = 4
  third : c.length = 4
  fourth : d.length = 4
  fifth : e.length = 12

variable {a b c d e : List Char}

/-- The groups joined by hyphens. -/
def hyphened (a b c d e : List Char) : List Char :=
  a ++ '-' :: (b ++ '-' :: (c ++ '-' :: (d ++ '-' :: e)))

theorem Groups.grouped (h : Groups a b c d e) :
    grouped (a ++ (b ++ (c ++ (d ++ e)))) = hyphened a b c d e := by
  simp [Identifier.grouped, hyphened, List.drop_append, List.drop_eq_nil_of_le,
    h.first, h.second, h.third, h.fourth]

theorem Groups.ofGrouped? (h : Groups a b c d e) :
    ofGrouped? (hyphened a b c d e) = ofDigits? (a ++ (b ++ (c ++ (d ++ e)))) := by
  simp [Identifier.ofGrouped?, hyphened, List.drop_append, List.drop_eq_nil_of_le,
    List.getElem?_append, List.getElem?_cons, h.first, h.second, h.third, h.fourth, h.fifth]

/-- A run of `k` characters from place `n` on, and what comes after it. -/
theorem drop_split (cs : List Char) (n k : Nat) :
    cs.drop n = (cs.drop n).take k ++ cs.drop (n + k) := by
  rw [← List.drop_drop, List.take_append_drop]

/-- A character at place `n`, and what comes after it. -/
theorem drop_split_at {x : Char} {n : Nat} (h : cs[n]? = some x) :
    cs.drop n = x :: cs.drop (n + 1) := by
  rw [List.drop_eq_getElem?_toList_append, h]
  rfl

theorem exists_groups_of_length (h : ds.length = 32) :
    ∃ a b c d e, Groups a b c d e ∧ ds = a ++ (b ++ (c ++ (d ++ e))) := by
  refine ⟨ds.take 8, (ds.drop 8).take 4, (ds.drop 12).take 4, (ds.drop 16).take 4, ds.drop 20,
    ⟨by simp [h], by simp [h], by simp [h], by simp [h], by simp [h]⟩, ?_⟩
  rw [← drop_split ds 16 4, ← drop_split ds 12 4, ← drop_split ds 8 4, List.take_append_drop]

theorem exists_groups_of_hyphens (h : cs.length = 36)
    (hyphens : ∀ n ∈ [8, 13, 18, 23], cs[n]? = some '-') :
    ∃ a b c d e, Groups a b c d e ∧ cs = hyphened a b c d e := by
  refine ⟨cs.take 8, (cs.drop 9).take 4, (cs.drop 14).take 4, (cs.drop 19).take 4, cs.drop 24,
    ⟨by simp [h], by simp [h], by simp [h], by simp [h], by simp [h]⟩, ?_⟩
  have hyphen {n : Nat} (hn : n ∈ [8, 13, 18, 23]) := drop_split_at (hyphens n hn)
  rw [hyphened, ← hyphen (n := 23) (by decide), ← drop_split cs 19 4, ← hyphen (n := 18) (by decide),
    ← drop_split cs 14 4, ← hyphen (n := 13) (by decide), ← drop_split cs 9 4,
    ← hyphen (n := 8) (by decide), List.take_append_drop]

theorem ofGrouped?_eq_some :
    ofGrouped? cs = some i ↔ ∃ ds, ds.map Char.toLower = i.digits ∧ cs = grouped ds := by
  constructor
  · intro h
    obtain ⟨hframe, -⟩ := Option.ite_none_right_eq_some.mp h
    simp only [Bool.and_eq_true, decide_eq_true_eq, List.all_eq_true] at hframe
    obtain ⟨a, b, c, d, e, hg, rfl⟩ := exists_groups_of_hyphens hframe.1 hframe.2
    rw [hg.ofGrouped?, ofDigits?_eq_some] at h
    exact ⟨_, h, hg.grouped.symm⟩
  · rintro ⟨ds, hds, rfl⟩
    obtain ⟨a, b, c, d, e, hg, rfl⟩ := exists_groups_of_length (length_of_digits hds)
    rw [hg.grouped, hg.ofGrouped?, ofDigits?_eq_some]
    exact hds

/-- The spellings of an identifier. The digits can be in either case. -/
inductive Spells (i : Identifier) : List Char → Prop where
  /-- The digits alone. -/
  | plain {ds : List Char} (h : ds.map Char.toLower = i.digits) : Spells i ds
  /-- The digits in five groups, with hyphens between them. -/
  | grouped {ds : List Char} (h : ds.map Char.toLower = i.digits) : Spells i (Identifier.grouped ds)
  /-- The five groups in braces. -/
  | braced {ds : List Char} (h : ds.map Char.toLower = i.digits) :
    Spells i (Char.ofNat 0x7B :: Identifier.grouped ds ++ [Char.ofNat 0x7D])
  /-- The five groups after the word that may stand before them. -/
  | urn {ds : List Char} (h : ds.map Char.toLower = i.digits) :
    Spells i (Identifier.urn ++ Identifier.grouped ds)

theorem length_grouped (h : ds.length = 32) : (grouped ds).length = 36 := by
  simp [grouped, h]

/-- The ninth character of the grouped digits is a hyphen, so they do not start with the word that
may stand before them. -/
theorem not_urn_isPrefixOf_grouped (h : ds.length = 32) : ¬ urn.isPrefixOf (grouped ds) := by
  rw [List.isPrefixOf_iff_prefix]
  intro hprefix
  have hcolon : (grouped ds)[8]? = some ':' := by
    obtain ⟨rest, hrest⟩ := hprefix
    rw [← hrest]
    rfl
  obtain ⟨a, b, c, d, e, hg, rfl⟩ := exists_groups_of_length h
  simp [hg.grouped, hyphened, hg.first] at hcolon

/-- A text of 38 characters in braces is the text inside them. -/
theorem eq_braced (hlength : cs.length = 38) (hhead : cs.head? = some (Char.ofNat 0x7B))
    (hlast : cs.getLast? = some (Char.ofNat 0x7D)) :
    cs = Char.ofNat 0x7B :: (cs.drop 1).take 36 ++ [Char.ofNat 0x7D] := by
  rw [List.head?_eq_getElem?] at hhead
  rw [List.getLast?_eq_getElem?, hlength] at hlast
  have hend : cs.drop 38 = [] := List.drop_eq_nil_of_le hlength.le
  rw [← hend, List.cons_append, ← drop_split_at hlast, ← drop_split cs 1 36, ← drop_split_at hhead,
    List.drop_zero]

/-- A text spells an identifier exactly when it is one of its four spellings. -/
theorem ofChars?_eq_some : ofChars? cs = some i ↔ i.Spells cs := by
  constructor
  · intro h
    unfold ofChars? at h
    split at h
    · exact .plain (ofDigits?_eq_some.mp h)
    split at h
    · rename_i hframe
      simp only [Bool.and_eq_true, decide_eq_true_eq] at hframe
      obtain ⟨ds, hds, hinside⟩ := ofGrouped?_eq_some.mp h
      rw [eq_braced hframe.1.1 hframe.1.2 hframe.2, hinside]
      exact .braced hds
    split at h
    · rename_i hprefix
      obtain ⟨ds, hds, hrest⟩ := ofGrouped?_eq_some.mp h
      obtain ⟨rest, rfl⟩ := List.isPrefixOf_iff_prefix.mp hprefix
      rw [show rest = grouped ds from hrest]
      exact .urn hds
    · obtain ⟨ds, hds, rfl⟩ := ofGrouped?_eq_some.mp h
      exact .grouped hds
  · intro h
    cases h with
    | plain hds => rw [ofChars?, if_pos (length_of_digits hds), ofDigits?_eq_some.mpr hds]
    | @grouped ds hds =>
      have hlength := length_grouped (length_of_digits hds)
      rw [ofChars?, if_neg (by omega), if_neg (by simp [hlength]),
        if_neg (not_urn_isPrefixOf_grouped (length_of_digits hds))]
      exact ofGrouped?_eq_some.mpr ⟨ds, hds, rfl⟩
    | @braced ds hds =>
      have hlength := length_grouped (length_of_digits hds)
      rw [ofChars?, if_neg (by simp [hlength]), if_pos (by simp [hlength, List.getLast?_cons])]
      refine ofGrouped?_eq_some.mpr ⟨ds, hds, ?_⟩
      rw [List.cons_append, List.drop_one, List.tail_cons, List.take_left' hlength]
    | @urn ds hds =>
      have hlength := length_grouped (length_of_digits hds)
      have hurn : urn.length = 9 := rfl
      rw [ofChars?, if_neg (by simp [hlength, hurn]), if_neg (by simp [hlength, hurn]),
        if_pos (List.isPrefixOf_iff_prefix.mpr (List.prefix_append _ _)), List.drop_left' hurn]
      exact ofGrouped?_eq_some.mpr ⟨ds, hds, rfl⟩

theorem ofText?_eq_some {s : String} : ofText? s = some i ↔ i.Spells s.toList := ofChars?_eq_some

/-- The lower case of a digit is the digit. -/
theorem map_toLower_digits (i : Identifier) : i.digits.map Char.toLower = i.digits := by
  rw [digits, Text.hexDigits, List.map_map]
  refine List.map_congr_left fun n _ => ?_
  exact (by decide : ∀ v < 16, (Text.hexDigit v).toLower = Text.hexDigit v) _ (Nat.mod_lt _ (by decide))

/-- The text of an identifier spells it. -/
@[simp] theorem ofText?_text (i : Identifier) : ofText? i.text = some i := by
  rw [ofText?_eq_some, text, String.toList_ofList]
  exact .grouped (map_toLower_digits i)

end Identifier
end ReviewRota
