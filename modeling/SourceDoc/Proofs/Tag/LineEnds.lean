import SourceDoc.Proofs.Text.LineEnds
import SourceDoc.Proofs.Text.Words
import SourceDoc.Tag.DocText

namespace SourceDoc

namespace Text

namespace LinesAlike

variable {ls ms : List Text}

/-- Every line but the last is cut off before its line end, so texts put together from alike lines
    differ at most in blanks at the end. -/
theorem exists_join_eq (h : LinesAlike ls ms) :
    ∃ b : Text, b.all isBlank = true ∧ join "\n" ms = join "\n" ls ++ b := by
  induction h with
  | same ls => exact ⟨[], rfl, (List.append_nil _).symm⟩
  | added => exact ⟨['\r'], by decide, rfl⟩
  | last l => exact ⟨['\r'], by decide, by rw [join_singleton, join_singleton]⟩
  | @cons l ls ms h ih =>
    obtain ⟨b, hb, hjoin⟩ := ih
    cases ls with
    | nil =>
      cases ms with
      | nil => exact ⟨[], rfl, (List.append_nil _).symm⟩
      | cons m ms =>
        refine ⟨'\n' :: b, by simpa [hb] using (by decide : isBlank '\n' = true), ?_⟩
        rw [join_cons_cons, hjoin, join_singleton]
        rfl
    | cons first ls =>
      cases ms with
      | nil => cases h
      | cons m ms =>
        refine ⟨b, hb, ?_⟩
        rw [join_cons_cons, join_cons_cons, hjoin]
        simp

theorem trim_join_eq (h : LinesAlike ls ms) : trim (join "\n" ms) = trim (join "\n" ls) := by
  obtain ⟨b, hb, hjoin⟩ := h.exists_join_eq
  rw [hjoin, trim_append_blank _ hb]

theorem isTagLine_return : TagLine.isTagLine ['\r'] = false := by
  rw [← List.nil_append ['\r'], TagLine.isTagLine_concat_return]
  rfl

theorem any_isTagLine_eq (h : LinesAlike ls ms) :
    ms.any TagLine.isTagLine = ls.any TagLine.isTagLine := by
  induction h with
  | same ls => rfl
  | added => simp [isTagLine_return]
  | last l => simp [TagLine.isTagLine_concat_return]
  | cons l _ ih => rw [List.any_cons, List.any_cons, ih]

/-- The lines before the first tag line are alike, too. -/
theorem takeWhile (h : LinesAlike ls ms) :
    LinesAlike (ls.takeWhile (!TagLine.isTagLine ·)) (ms.takeWhile (!TagLine.isTagLine ·)) := by
  induction h with
  | same ls => exact .same _
  | added =>
    rw [List.takeWhile_cons, isTagLine_return]
    exact .added
  | last l =>
    rw [List.takeWhile_cons, List.takeWhile_cons, TagLine.isTagLine_concat_return]
    split
    · exact .last l
    · exact .same []
  | cons l _ ih =>
    rw [List.takeWhile_cons, List.takeWhile_cons]
    split
    · exact .cons l ih
    · exact .same []

end LinesAlike

end Text

namespace TagLine

/-- Comments are taken for their tags in both forms of line ends. -/
theorem occursIn_eq {t u : Text} (h : Text.SameLines t u) : occursIn u = occursIn t :=
  h.linesAlike.any_isTagLine_eq

end TagLine

namespace DocText

open Text

theorem tagsOfLines_singleton (l : Text) :
    tagsOfLines [l] = (TagLine.ofLine? l).toList.map fun tag => (tag.name, trim tag.value) := by
  rw [tagsOfLines]
  cases TagLine.ofLine? l with
  | none => rfl
  | some tag => simp [tagsOfLines]

/-- A return at the end of that line goes with the blanks. -/
theorem tagsOfLines_concat_return (l : Text) : tagsOfLines [l ++ ['\r']] = tagsOfLines [l] := by
  have htrim (value : Text) : trim (value ++ ['\r']) = trim value :=
    trim_append_blank value (by decide)
  rw [tagsOfLines_singleton, tagsOfLines_singleton]
  rcases TagLine.ofLine?_concat_return l with h | h
  · rw [h]
  · rw [h]
    cases TagLine.ofLine? l with
    | none => rfl
    | some tag => simp [htrim]

/-- All tags have the same values, since values are trimmed. -/
theorem tagsOfLines_eq {ls ms : List Text} (h : LinesAlike ls ms) :
    tagsOfLines ms = tagsOfLines ls := by
  induction h with
  | same ls => rfl
  | added => exact tagsOfLines_concat_return []
  | last l => exact tagsOfLines_concat_return l
  | @cons l ls ms h ih =>
    rw [tagsOfLines, tagsOfLines]
    cases TagLine.ofLine? l with
    | none => exact ih
    | some tag =>
      have hvalue := (LinesAlike.cons tag.value h.takeWhile).trim_join_eq
      simp only [hvalue, ih]

variable {t u : Text} (h : SameLines t u) (rules : TagRules)

include h

theorem canonicalTags_eq : canonicalTags rules u = canonicalTags rules t := by
  rw [canonicalTags, canonicalTags, writtenTags, writtenTags, tagsOfLines_eq h.linesAlike]

/-- All that is read from a doc text is the same: the rules see only trimmed values. -/
theorem read_eq : read rules u = read rules t := by
  have hpreamble : trim (preamble u) = trim (preamble t) := h.linesAlike.takeWhile.trim_join_eq
  rw [read, read, hpreamble, canonicalTags_eq h]

end DocText

end SourceDoc
