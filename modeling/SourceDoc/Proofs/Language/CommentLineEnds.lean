import Mathlib.Data.List.Forall2
import SourceDoc.Proofs.Text.LineEnds
import SourceDoc.Proofs.Token.Lossless
import SourceDoc.Proofs.Token.Written

namespace SourceDoc

open Text (IsStop Returned SameLines)

/-- Comments that are of the same sort and have the same text, up to line ends. -/
structure Language.CommentsAlike (lang : Language) (t u : Text) : Prop where
  isDoc : lang.isDoc u = lang.isDoc t
  opensBlock : lang.opensBlock u = lang.opensBlock t
  body : SameLines (lang.body t) (lang.body u)

namespace Lua

/-- The bracket that opens a long bracket of the given level. -/
def openingBracket (level : Nat) : Text :=
  '[' :: (List.replicate level '=' ++ ['['])

theorem not_mem_openingBracket {c : Char} (hbracket : c ≠ '[') (hsign : c ≠ '=') (level : Nat) :
    c ∉ openingBracket level := by
  simp [openingBracket, hbracket, hsign]

/-- The level of a bracket is what the text starts with, so it is found alike in both texts. -/
theorem bracketLevel?_eq_some_iff {t : Text} {level : Nat} :
    bracketLevel? t = some level ↔ openingBracket level <+: t := by
  constructor
  · intro h
    obtain ⟨rest, rfl⟩ := eq_of_bracketLevel? h
    exact ⟨rest, by simp [openingBracket]⟩
  · rintro ⟨rest, rfl⟩
    have hrun : Lexeme.run (· == '=') (List.replicate level '=' ++ ('[' :: rest)) = level := by
      rw [Lexeme.run_append (by simp) (by simp), List.length_replicate]
    have hdrop : (List.replicate level '=' ++ ('[' :: rest)).drop level = '[' :: rest :=
      List.drop_left' List.length_replicate
    simp only [openingBracket, List.cons_append, List.append_assoc, List.nil_append, bracketLevel?,
      hrun, hdrop, List.head?_cons, if_true]

theorem bracketLevel?_eq {t u : Text} (h : SameLines t u) : bracketLevel? u = bracketLevel? t := by
  apply Option.ext
  intro level
  rw [bracketLevel?_eq_some_iff, bracketLevel?_eq_some_iff]
  exact h.prefix_iff (not_mem_openingBracket (by decide) (by decide) level)
    (not_mem_openingBracket (by decide) (by decide) level)

/-- A long comment is two dashes, an opening bracket and its content. -/
theorem longContent?_eq_some_iff {t content : Text} :
    longContent? t = some content ↔
      ∃ level, t = '-' :: '-' :: (openingBracket level ++ content) := by
  have hdrop (level : Nat) (rest : Text) :
      (openingBracket level ++ rest).drop (level + 2) = rest :=
    List.drop_left' (by simp [openingBracket])
  constructor
  · intro h
    unfold longContent? at h
    split at h
    · obtain ⟨level, hlevel, hcontent⟩ := Option.map_eq_some_iff.mp h
      obtain ⟨rest, rfl⟩ := bracketLevel?_eq_some_iff.mp hlevel
      rw [hdrop] at hcontent
      exact ⟨level, by rw [hcontent]⟩
    · cases h
  · rintro ⟨level, rfl⟩
    have hlevel : bracketLevel? (openingBracket level ++ content) = some level :=
      bracketLevel?_eq_some_iff.mpr (List.prefix_append _ _)
    rw [longContent?, hlevel, Option.map_some, hdrop]

/-- Long comments that differ in line ends have contents that do, and only long comments. -/
theorem longContent?_alike {stop t u : Text} (hstop : IsStop stop)
    (h : Returned stop t u) :
    (longContent? t = none ∧ longContent? u = none) ∨
      ∃ c d, longContent? t = some c ∧ longContent? u = some d ∧ Returned stop c d := by
  have hnot {c : Char} (hdash : c ≠ '-') (hbracket : c ≠ '[') (hsign : c ≠ '=') (level : Nat) :
      c ∉ '-' :: '-' :: openingBracket level := by
    simp [hdash, not_mem_openingBracket hbracket hsign level]
  cases ht : longContent? t with
  | some c =>
    obtain ⟨level, rfl⟩ := longContent?_eq_some_iff.mp ht
    obtain ⟨d, rfl, hd⟩ := Returned.exists_of_append
      (hnot (by decide) (by decide) (by decide) level) h
    exact .inr ⟨c, d, rfl, longContent?_eq_some_iff.mpr ⟨level, rfl⟩, hd⟩
  | none =>
    left
    refine ⟨rfl, ?_⟩
    rw [Option.eq_none_iff_forall_ne_some]
    intro d hu
    obtain ⟨level, rfl⟩ := longContent?_eq_some_iff.mp hu
    obtain ⟨c, rfl, -⟩ := Returned.exists_of_eq_append hstop
      (hnot (by decide) (by decide) (by decide) level) h
    have hc : longContent? ('-' :: '-' :: (openingBracket level ++ c)) = some c :=
      longContent?_eq_some_iff.mpr ⟨level, rfl⟩
    cases ht.symm.trans hc

theorem all_isBlank_eq {stop t u : Text} (hstop : IsStop stop) (h : Returned stop t u) :
    u.all Text.isBlank = t.all Text.isBlank := by
  have hreturn : Text.isBlank '\r' = true := by decide
  induction h with
  | stop => exact hstop.all_isBlank
  | char _ _ ih => rw [List.all_cons, List.all_cons, ih]
  | feed _ ih => rw [List.all_cons, List.all_cons, List.all_cons, ih, hreturn, Bool.true_and]

/-- What is cut off the end of a long comment is a closing bracket with blanks behind it. -/
theorem isClosing_iff {t : Text} :
    isClosing t = true ↔
      ∃ level rest, t = closingBracket level ++ rest ∧ rest.all Text.isBlank = true := by
  constructor
  · intro h
    unfold isClosing at h
    split at h
    · rename_i cs
      split at h
      · rename_i rest hrest
        have hsigns : cs.takeWhile (· == '=') =
            List.replicate (cs.takeWhile (· == '=')).length '=' := by
          rw [List.eq_replicate_iff]
          refine ⟨rfl, ?_⟩
          intro c hc
          simpa using List.all_eq_true.mp List.all_takeWhile c hc
        refine ⟨(cs.takeWhile (· == '=')).length, rest, ?_, h⟩
        rw [closingBracket, ← hsigns]
        simp [← hrest]
      · cases h
    · cases h
  · rintro ⟨level, rest, rfl, hrest⟩
    have hdrop : (List.replicate level '=' ++ (']' :: rest)).dropWhile (· == '=') = ']' :: rest := by
      rw [List.dropWhile_append_of_pos (by simp)]
      rfl
    simp only [closingBracket, List.cons_append, List.append_assoc, List.nil_append, isClosing,
      hdrop, hrest]

theorem isClosing_eq {stop t u : Text} (hstop : IsStop stop)
    (h : Returned stop t u) : isClosing u = isClosing t := by
  have hnot {c : Char} (hbracket : c ≠ ']') (hsign : c ≠ '=') (level : Nat) :
      c ∉ closingBracket level := by
    simp [closingBracket, hbracket, hsign]
  rw [Bool.eq_iff_iff, isClosing_iff, isClosing_iff]
  constructor
  · rintro ⟨level, rest, rfl, hrest⟩
    obtain ⟨r, rfl, hr⟩ := h.exists_of_eq_append hstop (hnot (by decide) (by decide) level)
    exact ⟨level, r, rfl, by rw [← all_isBlank_eq hstop hr, hrest]⟩
  · rintro ⟨level, rest, rfl, hrest⟩
    obtain ⟨v, rfl, hv⟩ := h.exists_of_append (hnot (by decide) (by decide) level)
    exact ⟨level, v, rfl, by rw [all_isBlank_eq hstop hv, hrest]⟩

/-- Dashes and the one space behind them are dropped alike. -/
theorem dropDashes_alike {stop t u : Text} (hstop : IsStop stop)
    (h : Returned stop t u) : Returned stop (dropDashes t) (dropDashes u) := by
  have hdashes := h.dropWhile_beq hstop (by decide : '-' ≠ '\n') (by decide)
  exact hdashes.dropSpace hstop

/-- Both forms of comments have the same text up to line ends. -/
theorem body_alike {stop t u : Text} (hstop : IsStop stop) (h : Returned stop t u) :
    SameLines (body t) (body u) := by
  unfold body
  rcases longContent?_alike hstop h with ⟨ht, hu⟩ | ⟨c, d, ht, hu, hcontent⟩
  · rw [ht, hu]
    simp only [(h.sameLines hstop).head?_eq_some_iff (by decide : '-' ≠ '\n') (by decide)]
    split
    · exact (dropDashes_alike hstop h).sameLines hstop
    · exact h.sameLines hstop
  · rw [ht, hu]
    have hends : Text.dropLongestEnd isClosing stop = [] ∨
        Text.dropLongestEnd isClosing stop = stop := by
      rcases hstop with rfl | rfl <;> decide
    rcases (dropDashes_alike hstop hcontent).dropLongestEnd (isClosing_eq hstop) hends with h | h
    · exact .inl h
    · exact h.sameLines hstop

theorem isDoc_eq {stop t u : Text} (hstop : IsStop stop) (h : Returned stop t u) :
    isDoc u = isDoc t := by
  have hdashes := (h.sameLines hstop).isPrefixOf_eq (by decide : '\n' ∉ "---".toList) (by decide)
  unfold isDoc
  rw [hdashes]
  rcases longContent?_alike hstop h with ⟨ht, hu⟩ | ⟨c, d, ht, hu, hcontent⟩
  · rw [ht, hu]
  · have hinner := (hcontent.sameLines hstop).isPrefixOf_eq (by decide : '\n' ∉ "--".toList)
      (by decide)
    rw [ht, hu, Option.any_some, Option.any_some, hinner]

/-- Comments of Lua that differ in line ends are read alike, also where a return was taken along at
    the end. -/
theorem commentsAlike {stop t u : Text} (hstop : IsStop stop)
    (h : Returned stop t u) : Language.CommentsAlike .lua t u where
  isDoc := isDoc_eq hstop h
  opensBlock := isDoc_eq hstop h
  body := body_alike hstop h

end Lua

namespace C

variable {t u : Text}

theorem dropStar_alike (h : Returned [] t u) : Returned [] (dropStar t) (dropStar u) := by
  have hblanks := h.dropWhile (by decide : Text.isBlank '\r' = Text.isBlank '\n') rfl
  unfold dropStar
  generalize t.dropWhile Text.isBlank = a at hblanks
  generalize u.dropWhile Text.isBlank = b at hblanks
  cases hblanks with
  | stop => exact h
  | @char c _ _ _ hrest =>
    by_cases hstar : c = '*'
    · subst hstar
      exact hrest.dropSpace (.inl rfl)
    · simpa [hstar] using h
  | feed _ => exact h

theorem isClosing_eq (h : Returned [] t u) : isClosing u = isClosing t := by
  have hblanks := h.dropWhile (by decide : Text.isBlank '\r' = Text.isBlank '\n') rfl
  unfold isClosing
  generalize t.dropWhile Text.isBlank = a at hblanks
  generalize u.dropWhile Text.isBlank = b at hblanks
  cases hblanks with
  | stop => rfl
  | @char c _ _ _ hrest =>
    by_cases hstar : c = '*'
    · subst hstar
      have hstars := hrest.dropWhile_beq (.inl rfl) (by decide : '*' ≠ '\n') (by decide)
      have hslash := hstars.eq_iff (by decide : '\n' ∉ ['/']) (by decide)
      change (List.dropWhile _ _ == ['/']) = (List.dropWhile _ _ == ['/'])
      rw [Bool.eq_iff_iff, beq_iff_eq, beq_iff_eq]
      exact hslash
    · simp [hstar]
  | feed _ => rfl

/-- The lines of a block comment lose their line ends before they are put together again. -/
theorem body_block_alike {rest more : Text} (h : Returned [] rest more) :
    SameLines (body ('/' :: '*' :: rest)) (body ('/' :: '*' :: more)) := by
  have hstars := h.dropWhile_beq (.inl rfl) (by decide : '*' ≠ '\n') (by decide)
  have hcontent := hstars.dropSpace (.inl rfl)
  have hkept := (hcontent.dropLongestEnd isClosing_eq (.inl rfl)).elim id id
  simp only [body, hkept.lines_eq]
  apply SameLines.join
  rw [List.forall₂_map_left_iff, List.forall₂_map_right_iff, List.forall₂_same]
  intro line hline
  have hreturn := Text.return_not_mem_lines hkept.return_not_mem line hline
  exact .inl (dropStar_alike (Text.returned_self hreturn))

/-- The text of a line comment is trimmed, so a return at its end does not show. -/
theorem body_line_alike {stop rest more : Text} (hstop : IsStop stop)
    (h : Returned stop rest more) :
    SameLines (body ('/' :: '/' :: rest)) (body ('/' :: '/' :: more)) := by
  have hslashes := h.dropWhile_beq hstop (by decide : '/' ≠ '\n') (by decide)
  exact (hslashes.dropSpace hstop).sameLines hstop

/-- Block comments of C that differ in line ends are read alike. -/
theorem commentsAlike_block {rest more : Text} (h : Returned [] rest more) :
    Language.CommentsAlike .c ('/' :: '*' :: rest) ('/' :: '*' :: more) := by
  have hwhole : Returned [] ('/' :: '*' :: rest) ('/' :: '*' :: more) :=
    .char (by decide) (.char (by decide) h)
  have hstars := SameLines.isPrefixOf_eq (by decide : '\n' ∉ "/**".toList) (by decide) (.inl hwhole)
  have hslashes := SameLines.isPrefixOf_eq (by decide : '\n' ∉ "///".toList) (by decide)
    (.inl hwhole)
  have hempty := hwhole.eq_iff (by decide : '\n' ∉ "/**/".toList) (by decide)
  constructor
  · have hbne : ('/' :: '*' :: more != "/**/".toList) = ('/' :: '*' :: rest != "/**/".toList) := by
      rw [Bool.eq_iff_iff, bne_iff_ne, bne_iff_ne, Ne, Ne, hempty]
    change (_ && _ || _) = (_ && _ || _)
    rw [hstars, hslashes, hbne]
  · exact hstars
  · exact body_block_alike h

/-- Line comments of C may differ in the return at their end. -/
theorem commentsAlike_line {stop rest more : Text} (hstop : IsStop stop)
    (h : Returned stop rest more) :
    Language.CommentsAlike .c ('/' :: '/' :: rest) ('/' :: '/' :: more) where
  isDoc := by
    have hslash := (h.sameLines hstop).isPrefixOf_eq (by decide : '\n' ∉ ['/']) (by decide)
    exact hslash
  opensBlock := rfl
  body := body_line_alike hstop h

end C

end SourceDoc
