import Mathlib.Data.List.Basic
import SourceDoc.Tag.Line

namespace SourceDoc

namespace Text

theorem join_cons_cons (separator t u : Text) (ts : List Text) :
    join separator (t :: u :: ts) = t ++ (separator ++ join separator (u :: ts)) := by
  simp [join, List.intercalate]

@[simp] theorem join_singleton (separator t : Text) : join separator [t] = t := by
  simp [join, List.intercalate]

/-- All texts but the first follow the separator. -/
theorem join_cons (separator t : Text) (ts : List Text) :
    join separator (t :: ts) = t ++ ts.flatMap (separator ++ ·) := by
  induction ts generalizing t with
  | nil => simp
  | cons u us ih => rw [join_cons_cons, ih, List.flatMap_cons, List.append_assoc]

/-- All texts but the last are followed by the separator. -/
theorem join_concat (separator : Text) (ts : List Text) (last : Text) :
    join separator (ts ++ [last]) = ts.flatMap (· ++ separator) ++ last := by
  induction ts with
  | nil => exact join_singleton separator last
  | cons t ts ih =>
    have hcons : ∃ u us, ts ++ [last] = u :: us := List.exists_cons_of_ne_nil (by simp)
    obtain ⟨u, us, hcons⟩ := hcons
    rw [List.cons_append, hcons, join_cons_cons, ← hcons, ih]
    simp

/-- The separator stands between texts only, so a joined text starts as its first part does. -/
theorem prefix_join (separator t : Text) (ts : List Text) : t <+: join separator (t :: ts) := by
  cases ts with
  | nil => simp
  | cons u us =>
    rw [join_cons_cons]
    exact List.prefix_append _ _

/-- Each of the texts that are joined is part of the result. -/
theorem infix_join {separator t : Text} {ts : List Text} (h : t ∈ ts) :
    t <:+: join separator ts := by
  induction ts with
  | nil => cases h
  | cons u us ih =>
    cases us with
    | nil => simp [List.mem_singleton.mp h]
    | cons v vs =>
      rw [join_cons_cons]
      rcases List.mem_cons.mp h with rfl | h
      · exact List.infix_append [] t _
      · exact (ih h).trans ((List.suffix_append_of_suffix (List.suffix_append _ _)).isInfix)

/-- Also the empty text has a piece, so there is always a last one. -/
theorem split_ne_nil (separator : Char) (t : Text) : split separator t ≠ [] := by
  induction t with
  | nil => simp [split]
  | cons c cs ih =>
    rw [split]
    split
    · exact List.cons_ne_nil _ _
    · split <;> exact List.cons_ne_nil _ _

theorem split_append_separator (separator : Char) (t u : Text) :
    split separator (t ++ separator :: u) = split separator t ++ split separator u := by
  induction t with
  | nil => simp [split]
  | cons c cs ih =>
    rw [List.cons_append, split, split, ih]
    split
    · rfl
    · cases hcs : split separator cs with
      | nil => exact absurd hcs (split_ne_nil separator cs)
      | cons piece pieces => rfl

theorem split_of_not_mem {separator : Char} {t : Text} (h : separator ∉ t) :
    split separator t = [t] := by
  induction t with
  | nil => rfl
  | cons c cs ih =>
    obtain ⟨hc, hcs⟩ : separator ≠ c ∧ separator ∉ cs := by simpa using h
    rw [split, if_neg (Ne.symm hc), ih hcs]

/-- Only the last piece is special, so all pieces in front of others are lines of their own. -/
theorem linesOfPieces_append (pieces : List Text) {more : List Text} (hmore : more ≠ []) :
    linesOfPieces (pieces ++ more) = pieces.map dropReturn ++ linesOfPieces more := by
  induction pieces with
  | nil => rfl
  | cons piece pieces ih =>
    rw [List.cons_append, linesOfPieces, ih]
    · rfl
    · simp [hmore]

/-- Behind a line feed a new line starts; what stands before it is cut into lines of its own, the
    last of which may lose a carriage return. -/
theorem lines_append_newline (t u : Text) :
    lines (t ++ '\n' :: u) = (split '\n' t).map dropReturn ++ lines u := by
  rw [lines, split_append_separator, linesOfPieces_append _ (split_ne_nil _ _), lines]

theorem lines_of_not_mem {t : Text} (h : '\n' ∉ t) : lines t = if t.isEmpty then [] else [t] := by
  rw [lines, split_of_not_mem h, linesOfPieces]

/-- Texts without line ends on lines of their own are those lines, if the last one is not empty. -/
theorem lines_join {ts : List Text} (hts : ∀ t ∈ ts, '\n' ∉ t ∧ t.getLast? ≠ some '\r')
    (hlast : ∀ t ∈ ts.getLast?, t ≠ []) : lines (join "\n" ts) = ts := by
  induction ts with
  | nil => rfl
  | cons t us ih =>
    obtain ⟨⟨hfeed, hreturn⟩, hus⟩ := List.forall_mem_cons.mp hts
    cases us with
    | nil =>
      have hne : t ≠ [] := hlast t rfl
      rw [join_singleton, lines_of_not_mem hfeed]
      simp [hne]
    | cons u us =>
      rw [List.getLast?_cons_cons] at hlast
      have hsplit : join "\n" (t :: u :: us) = t ++ '\n' :: join "\n" (u :: us) :=
        join_cons_cons "\n" t u us
      rw [hsplit, lines_append_newline, split_of_not_mem hfeed, ih hus hlast]
      simp [dropReturn, hreturn]

section Characters

variable {c : Char} {t : Text}

theorem mem_of_mem_split {separator : Char} {piece : Text} (hpiece : piece ∈ split separator t)
    (hc : c ∈ piece) : c ∈ t := by
  induction t generalizing piece with
  | nil =>
    rw [split, List.mem_singleton] at hpiece
    rwa [hpiece] at hc
  | cons d ds ih =>
    rw [split] at hpiece
    split at hpiece
    · rcases List.mem_cons.mp hpiece with rfl | hpiece
      · cases hc
      · exact List.mem_cons_of_mem d (ih hpiece hc)
    · cases hds : split separator ds with
      | nil => exact absurd hds (split_ne_nil separator ds)
      | cons first pieces =>
        rw [hds] at hpiece ih
        rcases List.mem_cons.mp hpiece with rfl | hpiece
        · rcases List.mem_cons.mp hc with rfl | hc
          · exact List.mem_cons_self
          · exact List.mem_cons_of_mem d (ih List.mem_cons_self hc)
        · exact List.mem_cons_of_mem d (ih (List.mem_cons_of_mem first hpiece) hc)

theorem dropReturn_prefix (t : Text) : dropReturn t <+: t := by
  unfold dropReturn
  split
  · exact List.dropLast_prefix t
  · exact List.prefix_rfl

/-- A line is a piece between line feeds, or less than that. -/
theorem exists_piece_of_mem_linesOfPieces {pieces : List Text} {line : Text}
    (h : line ∈ linesOfPieces pieces) : ∃ piece ∈ pieces, line <+: piece := by
  induction pieces with
  | nil => cases h
  | cons piece pieces ih =>
    cases pieces with
    | nil =>
      rw [linesOfPieces] at h
      split at h
      · cases h
      · exact ⟨piece, List.mem_cons_self, (List.mem_singleton.mp h) ▸ List.prefix_rfl⟩
    | cons next pieces =>
      rw [linesOfPieces] at h
      · rcases List.mem_cons.mp h with rfl | h
        · exact ⟨piece, List.mem_cons_self, dropReturn_prefix piece⟩
        · obtain ⟨found, hfound, hline⟩ := ih h
          exact ⟨found, List.mem_cons_of_mem piece hfound, hline⟩
      · exact List.cons_ne_nil next pieces

/-- Cutting into lines makes up no characters, so what is in no part of a text is in none of its
    lines. -/
theorem mem_of_mem_lines {line : Text} (hline : line ∈ lines t) (hc : c ∈ line) : c ∈ t := by
  obtain ⟨piece, hpiece, hpart⟩ := exists_piece_of_mem_linesOfPieces hline
  exact mem_of_mem_split hpiece (hpart.subset hc)

theorem mem_join {separator : Text} {ts : List Text} (h : c ∈ join separator ts) :
    c ∈ separator ∨ ∃ t ∈ ts, c ∈ t := by
  cases ts with
  | nil => cases h
  | cons t ts =>
    rw [join_cons, List.mem_append, List.mem_flatMap] at h
    rcases h with hfirst | ⟨u, hu, hc⟩
    · exact .inr ⟨t, List.mem_cons_self, hfirst⟩
    · rcases List.mem_append.mp hc with hc | hc
      · exact .inl hc
      · exact .inr ⟨u, List.mem_cons_of_mem t hu, hc⟩

end Characters

end Text

namespace TagLine

theorem takeWhile_concat_of_neg {p : Char → Bool} {c : Char} (hc : p c = false) (cs : Text) :
    (cs ++ [c]).takeWhile p = cs.takeWhile p := by
  induction cs with
  | nil => simp [hc]
  | cons d ds ih => by_cases hd : p d = true <;> simp [hd, ih]

theorem dropWhile_concat_of_neg {p : Char → Bool} {c : Char} (hc : p c = false) (cs : Text) :
    (cs ++ [c]).dropWhile p = cs.dropWhile p ++ [c] := by
  induction cs with
  | nil => simp [hc]
  | cons d ds ih => by_cases hd : p d = true <;> simp [hd, ih]

/-- A carriage return at the end of a tag line belongs to its value, or stands for the blank before
    a value that is not there. -/
theorem ofLine?_concat_return (line : Text) :
    ofLine? (line ++ ['\r']) = ofLine? line ∨
      ofLine? (line ++ ['\r']) =
        (ofLine? line).map fun tag => { tag with value := tag.value ++ ['\r'] } := by
  have hblank : Text.isBlank '\r' = true := by decide
  have hword : Text.isWordChar '\r' = false := by decide +kernel
  unfold ofLine?
  rw [List.dropWhile_append]
  cases hline : line.dropWhile Text.isBlank with
  | nil => simp [hblank]
  | cons c cs =>
    by_cases hat : c = '@'
    · subst hat
      simp only [List.isEmpty_cons, Bool.false_eq_true, if_false, List.cons_append,
        takeWhile_concat_of_neg hword, dropWhile_concat_of_neg hword]
      split
      · exact .inl rfl
      · cases hname : cs.dropWhile Text.isWordChar with
        | nil => simp [hblank]
        | cons d ds => by_cases hd : Text.isBlank d = true <;> simp [hd]
    · simp [hat]

/-- A carriage return at the end of a line does not decide whether it is a tag line. -/
theorem isTagLine_concat_return (line : Text) : isTagLine (line ++ ['\r']) = isTagLine line := by
  unfold isTagLine
  rcases ofLine?_concat_return line with h | h
  · rw [h]
  · rw [h, Option.isSome_map]

theorem isTagLine_dropReturn (line : Text) : isTagLine (Text.dropReturn line) = isTagLine line := by
  unfold Text.dropReturn
  split
  · rename_i hreturn
    obtain ⟨start, rfl⟩ := List.getLast?_eq_some_iff.mp hreturn
    rw [List.dropLast_concat, isTagLine_concat_return]
  · rfl

/-- Among pieces between line feeds there is a tag line if there is one among their lines. -/
theorem any_isTagLine_linesOfPieces (pieces : List Text) :
    (Text.linesOfPieces pieces).any isTagLine = pieces.any isTagLine := by
  induction pieces with
  | nil => rfl
  | cons piece pieces ih =>
    cases pieces with
    | nil => cases piece <;> simp [Text.linesOfPieces, isTagLine, ofLine?]
    | cons next pieces =>
      rw [Text.linesOfPieces, List.any_cons, List.any_cons, ih, isTagLine_dropReturn]
      exact List.cons_ne_nil next pieces

/-- Whether a text has a tag line is decided on each side of a line feed. -/
theorem occursIn_append_newline (t u : Text) :
    occursIn (t ++ '\n' :: u) = (occursIn t || occursIn u) := by
  simp only [occursIn, Text.lines, any_isTagLine_linesOfPieces, Text.split_append_separator,
    List.any_append]

/-- Texts on lines of their own have a tag line exactly if one of them has. -/
theorem occursIn_join (ts : List Text) : occursIn (Text.join "\n" ts) = ts.any occursIn := by
  induction ts with
  | nil => rfl
  | cons t us ih =>
    cases us with
    | nil => simp
    | cons u us =>
      rw [Text.join_cons_cons, List.any_cons, ← ih]
      exact occursIn_append_newline t _

end TagLine

end SourceDoc
