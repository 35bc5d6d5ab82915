import Mathlib.Data.List.DropRight
import Mathlib.Data.List.TakeWhile
import SourceDoc.Text.Basic

namespace SourceDoc.Text

/-- Nothing is trimmed at the start of a text exactly if the first character, if any, is no
    blank. -/
theorem trimStart_eq_self_iff {t : Text} :
    trimStart t = t ↔ ∀ c ∈ t.head?, isBlank c = false := by
  cases t with
  | nil => simp [trimStart]
  | cons c cs =>
    have hshorter : cs.dropWhile isBlank ≠ c :: cs := by
      intro h
      have hle := (List.dropWhile_suffix isBlank (l := cs)).length_le
      rw [h, List.length_cons] at hle
      omega
    by_cases hc : isBlank c = true
    · simp [trimStart, hc, hshorter]
    · simp [trimStart, hc]

theorem trimEnd_eq_self_iff {t : Text} :
    trimEnd t = t ↔ ∀ c ∈ t.getLast?, isBlank c = false := by
  rw [trimEnd, List.reverse_eq_iff, ← List.head?_reverse]
  exact trimStart_eq_self_iff

/-- A text is trimmed if it neither begins nor ends with a blank. -/
theorem trim_eq_self_iff {t : Text} :
    trim t = t ↔ (∀ c ∈ t.head?, isBlank c = false) ∧ ∀ c ∈ t.getLast?, isBlank c = false := by
  rw [← trimStart_eq_self_iff, ← trimEnd_eq_self_iff]
  constructor
  · intro h
    have hstart : trimStart t = t := by
      refine (List.dropWhile_suffix isBlank).eq_of_length_le ?_
      have hle := (List.rdropWhile_prefix isBlank (trimStart t)).length_le
      change (trim t).length ≤ (trimStart t).length at hle
      rwa [h] at hle
    exact ⟨hstart, by rwa [trim, hstart] at h⟩
  · rintro ⟨hstart, hend⟩
    rw [trim, hstart, hend]

/-- Blanks may be added before the end of a text is trimmed; even a text of blanks is no
    exception. -/
theorem trimEnd_append_blank (t : Text) {b : Text} (hb : b.all isBlank = true) :
    trimEnd (t ++ b) = trimEnd t := by
  have hreverse : ∀ c ∈ b.reverse, isBlank c = true := by
    simpa using hb
  rw [trimEnd, trimEnd, List.reverse_append, List.dropWhile_append_of_pos hreverse]

theorem trimEnd_cons (c : Char) (t : Text) :
    trimEnd (c :: t) = if (c :: t).all isBlank then [] else c :: trimEnd t := by
  have hempty : (t.reverse.dropWhile isBlank).isEmpty = t.all isBlank := by
    rw [Bool.eq_iff_iff, List.isEmpty_iff, List.dropWhile_eq_nil_iff, List.all_eq_true]
    simp
  rw [trimEnd, List.reverse_cons, List.dropWhile_append, hempty, List.all_cons]
  cases ht : t.all isBlank with
  | false => simp [trimEnd]
  | true =>
    rw [ht, List.isEmpty_iff] at hempty
    cases hc : isBlank c <;> simp [trimEnd, hc, hempty]

theorem trimEnd_append_of_not_blank (t : Text) {u : Text} (hu : u.all isBlank = false) :
    trimEnd (t ++ u) = t ++ trimEnd u := by
  induction t with
  | nil => rfl
  | cons c t ih =>
    rw [List.cons_append, trimEnd_cons, if_neg (by simp [hu]), ih]
    rfl

/-- Blanks at the end of a text are trimmed away. -/
theorem trim_append_blank (t : Text) {b : Text} (hb : b.all isBlank = true) :
    trim (t ++ b) = trim t := by
  have hall : ∀ c ∈ b, isBlank c = true := List.all_eq_true.mp hb
  unfold trim
  rw [trimStart, List.dropWhile_append]
  split
  · rename_i hempty
    have hnil : b.dropWhile isBlank = [] := List.dropWhile_eq_nil_iff.mpr hall
    rw [hnil, trimStart, List.isEmpty_iff.mp hempty]
  · exact trimEnd_append_blank _ hb

theorem dropSpace_suffix (t : Text) : dropSpace t <:+ t := by
  unfold dropSpace
  split
  · exact List.suffix_cons _ _
  · exact List.suffix_rfl

variable {word text : Text}

/-- A word and a text after it, trimmed: without the text the space goes, too. -/
theorem trim_word_text (hne : word ≠ []) (hword : ∀ c ∈ word, isBlank c = false)
    (htext : trim text = text) :
    trim (word ++ ' ' :: text) = if text.isEmpty then word else word ++ ' ' :: text := by
  have hhead (more : Text) : ∀ c ∈ (word ++ more).head?, isBlank c = false := by
    intro c hc
    rw [List.head?_append_of_ne_nil word hne] at hc
    exact hword c (List.mem_of_head? hc)
  cases text with
  | nil =>
    have hend : trimEnd (word ++ [' ']) = trimEnd word := List.rdropWhile_concat_pos _ _ _ rfl
    have htrimmed : trimEnd word = word :=
      trimEnd_eq_self_iff.mpr fun c hc => hword c (List.mem_of_getLast? hc)
    rw [trim, trimStart_eq_self_iff.mpr (hhead _), hend, htrimmed]
    rfl
  | cons d ds =>
    refine trim_eq_self_iff.mpr ⟨hhead _, ?_⟩
    rw [List.getLast?_append_of_ne_nil _ (List.cons_ne_nil _ _), List.getLast?_cons_cons]
    exact (trim_eq_self_iff.mp htext).2

/-- The recursion of the cut, in place of its definition by the library's scans. -/
theorem cutBefore?_cons (isCut : Char → Bool) (c : Char) (cs : Text) :
    cutBefore? isCut (c :: cs) =
      if isCut c then some ([], c :: cs)
      else (cutBefore? isCut cs).map fun cut => (c :: cut.1, cut.2) := by
  unfold cutBefore?
  cases hc : isCut c with
  | true => simp [hc]
  | false =>
    simp only [List.dropWhile_cons, List.takeWhile_cons, hc]
    cases cs.dropWhile (!isCut ·) with
    | nil => rfl
    | cons d ds => rfl

/-- Where a text is cut does not depend on a character behind it that is no cut. -/
theorem cutBefore?_concat {isCut : Char → Bool} {c : Char} (hc : isCut c = false) (cs : Text) :
    cutBefore? isCut (cs ++ [c]) =
      (cutBefore? isCut cs).map fun cut => (cut.1, cut.2 ++ [c]) := by
  induction cs with
  | nil => simp [cutBefore?, hc]
  | cons d ds ih =>
    rw [List.cons_append, cutBefore?_cons, cutBefore?_cons]
    split
    · rfl
    · rw [ih, Option.map_map, Option.map_map]
      rfl

theorem cutBefore?_eq_none_iff {isCut : Char → Bool} {t : Text} :
    cutBefore? isCut t = none ↔ ∀ c ∈ t, isCut c = false := by
  induction t with
  | nil => simp [cutBefore?]
  | cons c cs ih =>
    rw [cutBefore?_cons, List.forall_mem_cons, ← ih]
    cases isCut c <;> simp

/-- Behind the last separator there is no other. -/
theorem cutAroundLast?_append {isCut : Char → Bool} {c : Char} (hc : isCut c = true) {after : Text}
    (hafter : ∀ d ∈ after, isCut d = false) (before : Text) :
    cutAroundLast? isCut (before ++ c :: after) = some (before, after) := by
  have hall : ∀ d ∈ after.reverse, (!isCut d) = true := by
    intro d hd
    rw [hafter d (List.mem_reverse.mp hd)]
    rfl
  have hcut : cutBefore? isCut (after.reverse ++ c :: before.reverse) =
      some (after.reverse, c :: before.reverse) := by
    rw [cutBefore?, List.dropWhile_append_of_pos hall, List.takeWhile_append_of_pos hall]
    simp [hc]
  have hreverse : (before ++ c :: after).reverse = after.reverse ++ c :: before.reverse := by simp
  rw [cutAroundLast?, hreverse, hcut]
  simp

/-- A text with a separator in it has a last one. -/
theorem exists_last_separator {isCut : Char → Bool} {t : Text} (h : ∃ c ∈ t, isCut c = true) :
    ∃ before c after, t = before ++ c :: after ∧ isCut c = true ∧
      ∀ d ∈ after, isCut d = false := by
  induction t with
  | nil =>
    obtain ⟨c, hc, -⟩ := h
    cases hc
  | cons d ds ih =>
    by_cases hrest : ∃ c ∈ ds, isCut c = true
    · obtain ⟨before, c, after, rfl, hc, hafter⟩ := ih hrest
      exact ⟨d :: before, c, after, rfl, hc, hafter⟩
    · obtain ⟨c, hc, hcut⟩ := h
      rcases List.mem_cons.mp hc with rfl | hc
      · exact ⟨[], c, ds, rfl, hcut, by simpa using hrest⟩
      · exact absurd ⟨c, hc, hcut⟩ hrest

end SourceDoc.Text
