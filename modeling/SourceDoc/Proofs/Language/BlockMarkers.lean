import SourceDoc.Proofs.Language.BlockComments

namespace SourceDoc

namespace C

/-- A block comment with the given content between its markers. -/
def blockComment (content : Text) : Text :=
  '/' :: '*' :: (content ++ "*/")

theorem dropStar_suffix (line : Text) : dropStar line <:+ line := by
  unfold dropStar
  split
  · rename_i rest hrest
    have hstar : '*' :: rest <:+ line := hrest ▸ List.dropWhile_suffix _
    exact (Text.dropSpace_suffix rest).trans ((List.suffix_cons '*' rest).trans hstar)
  · exact List.suffix_rfl

variable {content : Text}

/-- A second star makes a doc comment, whatever follows it. -/
theorem isDoc_blockComment (text : Text) : isDoc (blockComment ('*' :: text)) = true := by
  have hlonger : text ++ ['*', '/'] ≠ ['/'] := by
    intro heq
    have hlength := congrArg List.length heq
    simp at hlength
  simpa [isDoc, blockComment] using hlonger

/-- Among the ordinary block comments only the empty one ends the block before it. -/
theorem opensBlock_blockComment (h : isDoc (blockComment content) = false) :
    opensBlock (blockComment content) = content.isEmpty := by
  cases content with
  | nil => decide
  | cons c cs =>
    by_cases hc : c = '*'
    · rw [hc, isDoc_blockComment] at h
      cases h
    · simp [opensBlock, blockComment, List.isPrefixOf, Ne.symm hc]

/-- A content that is not all stars keeps the closing marker whole, so all of it is cut off: the
    text is made of lines of the content. -/
theorem body_blockComment (h : content.all (· == '*') = false) :
    ∃ kept, kept <+: Text.dropSpace (content.dropWhile (· == '*')) ∧
      body (blockComment content) = Text.join "\n" ((Text.lines kept).map dropStar) := by
  obtain ⟨c, cs, hcs⟩ : ∃ c cs, content.dropWhile (· == '*') = c :: cs := by
    apply List.exists_cons_of_ne_nil
    intro hnil
    rw [List.all_eq_true.mpr (List.dropWhile_eq_nil_iff.mp hnil)] at h
    cases h
  have hopened : (content ++ "*/").dropWhile (· == '*') = c :: cs ++ "*/" := by
    rw [List.dropWhile_append, hcs]
    rfl
  have hspace : Text.dropSpace (c :: cs ++ "*/") = Text.dropSpace (c :: cs) ++ "*/" := by
    by_cases hc : c = ' ' <;> simp [Text.dropSpace, hc]
  have hbody : body (blockComment content) = Text.join "\n" ((Text.lines
      (Text.dropLongestEnd isClosing (Text.dropSpace (c :: cs) ++ "*/"))).map dropStar) := by
    rw [← hspace, ← hopened]
    rfl
  -- Blanks and stars before the closing marker may go with it, hence only a prefix of the content.
  have hclosing : isClosing "*/" = true := by decide
  rw [hcs]
  exact ⟨_, Text.dropLongestEnd_append_prefix hclosing _, hbody⟩

/-- Every character of the text is one of the content, or a line feed between its lines. -/
theorem mem_of_mem_body_blockComment (h : content.all (· == '*') = false) {c : Char}
    (hc : c ∈ body (blockComment content)) : c ∈ content ∨ c = '\n' := by
  obtain ⟨kept, hkept, hbody⟩ := body_blockComment h
  rw [hbody] at hc
  rcases Text.mem_join hc with hfeed | ⟨text, htext, hc⟩
  · exact .inr (List.mem_singleton.mp hfeed)
  · obtain ⟨line, hline, rfl⟩ := List.mem_map.mp htext
    have hmem := Text.mem_of_mem_lines hline ((dropStar_suffix line).subset hc)
    have hsuffix := (Text.dropSpace_suffix _).trans (List.dropWhile_suffix (· == '*') (l := content))
    exact .inl (hsuffix.subset (hkept.subset hmem))

/-- Stars alone go to the opening marker, and the star of the closing marker with them. -/
theorem body_blockComment_of_stars (h : content.all (· == '*') = true) :
    body (blockComment content) = "/" := by
  have hopened : (content ++ "*/").dropWhile (· == '*') = "/" := by
    rw [List.dropWhile_append_of_pos (List.all_eq_true.mp h)]
    rfl
  have hbody : body (blockComment content) = Text.join "\n" ((Text.lines (Text.dropLongestEnd isClosing
      (Text.dropSpace ((content ++ "*/").dropWhile (· == '*'))))).map dropStar) := rfl
  rw [hbody, hopened]
  decide

/-- The text of a comment whose content has no slash has one exactly if the content is nothing but
    stars, none included; the slash is then the whole text. -/
theorem slash_mem_body_blockComment_iff (h : '/' ∉ content) :
    ('/' ∈ body (blockComment content) ↔ content.all (· == '*') = true) ∧
      ('/' ∈ body (blockComment content) → body (blockComment content) = "/") := by
  have hstars : '/' ∈ body (blockComment content) → content.all (· == '*') = true := by
    intro hslash
    by_contra hother
    rcases mem_of_mem_body_blockComment (by simpa using hother) hslash with hmem | hfeed
    · exact h hmem
    · exact absurd hfeed (by decide)
  refine ⟨⟨hstars, ?_⟩, fun hslash => body_blockComment_of_stars (hstars hslash)⟩
  intro hall
  rw [body_blockComment_of_stars hall]
  exact List.mem_singleton.mpr rfl

/-- Stars at both ends and on the lines between, and a banner of stars. -/
theorem slash_mem_body_blockComment_iff_banner :
    ('/' ∉ ("** * a *\n ** \n * b ***" : Text) ∧
      '/' ∉ body (blockComment "** * a *\n ** \n * b ***")) ∧
    '/' ∉ ("*****" : Text) ∧ body "/*******/" = "/" := by
  have hlines : '/' ∉ ("** * a *\n ** \n * b ***" : Text) := by decide
  have hbanner : '/' ∉ ("*****" : Text) := by decide
  refine ⟨⟨hlines, ?_⟩, hbanner, ?_⟩
  · rw [(slash_mem_body_blockComment_iff hlines).1]
    decide
  · have hstars := (slash_mem_body_blockComment_iff hbanner).1
    exact (slash_mem_body_blockComment_iff hbanner).2 (hstars.mpr (by decide))

/-- The shortest doc comment there is leaves a slash. -/
theorem body_blockComment_leaves_slash :
    '/' ∉ ("*" : Text) ∧ isDoc (blockComment "*") = true ∧ '/' ∈ body (blockComment "*") := by
  decide

end C

end SourceDoc
