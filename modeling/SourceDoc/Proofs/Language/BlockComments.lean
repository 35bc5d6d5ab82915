import Mathlib.Data.List.Infix
import SourceDoc.Proofs.Language.CommentLineEnds
import SourceDoc.Proofs.Text.Lines
import SourceDoc.Proofs.Text.Words
import SourceDoc.Proofs.Token.Boundary

namespace SourceDoc

namespace Text

/-- Whether a closing marker behind a text is the first one: it occurs neither in the text nor
    across its end. -/
def ClosedBy (close t : Text) : Prop :=
  ∀ i < t.length, ¬ close <+: (t ++ close).drop i

/-- Decided on the text, so that concrete comments can be checked. -/
instance (close t : Text) : Decidable (ClosedBy close t) :=
  inferInstanceAs (Decidable (∀ i < t.length, ¬ close <+: (t ++ close).drop i))

variable {close t : Text}

theorem ClosedBy.tail {c : Char} (h : ClosedBy close (c :: t)) : ClosedBy close t :=
  fun i hi => h (i + 1) (Nat.succ_lt_succ hi)

/-- A search finds the closing marker behind the text, whatever follows it. -/
theorem offset?_append (hne : close ≠ []) (h : ClosedBy close t) (rest : Text) :
    offset? close (t ++ (close ++ rest)) = some t.length := by
  induction t with
  | nil =>
    obtain ⟨c, cs, rfl⟩ := List.exists_cons_of_ne_nil hne
    have hprefix : (c :: cs).isPrefixOf (c :: (cs ++ rest)) = true :=
      List.isPrefixOf_iff_prefix.mpr (List.prefix_append (c :: cs) rest)
    change offset? (c :: cs) (c :: (cs ++ rest)) = some 0
    rw [offset?, if_pos hprefix]
  | cons c t ih =>
    have hfirst : ¬ close.isPrefixOf (c :: (t ++ (close ++ rest))) = true := by
      rw [List.isPrefixOf_iff_prefix]
      intro hprefix
      -- what is found here would end before the rest begins
      have hwhole : c :: t ++ close <+: c :: (t ++ (close ++ rest)) := ⟨rest, by simp⟩
      have hlength : close.length ≤ (c :: t ++ close).length := by
        rw [List.length_append]
        exact Nat.le_add_left _ _
      exact h 0 (Nat.zero_lt_succ _) (List.prefix_of_prefix_length_le hprefix hwhole hlength)
    rw [List.cons_append, offset?, if_neg hfirst, ih h.tail]
    rfl

/-- A needle without the character between two texts is found in one of the two. -/
theorem infix_of_infix_append_cons {needle a b : Text} {c : Char} (hc : c ∉ needle)
    (h : needle <:+: a ++ c :: b) : needle <:+: a ∨ needle <:+: b := by
  have hwithin {d : Text} (hd : needle <+: d ++ c :: b) : needle <+: d := by
    have hmark : d ++ [c] <+: d ++ c :: b := ⟨b, by simp⟩
    rcases List.prefix_or_prefix_of_prefix hd hmark with hshort | hlong
    · rcases List.prefix_concat_iff.mp hshort with rfl | hshort
      · simp at hc
      · exact hshort
    · exact absurd (hlong.subset (by simp)) hc
  induction a with
  | nil =>
    rcases List.infix_cons_iff.mp h with hprefix | hinfix
    · exact .inl (hwithin (d := []) hprefix).isInfix
    · exact .inr hinfix
  | cons d a ih =>
    rcases List.infix_cons_iff.mp h with hprefix | hinfix
    · exact .inl (hwithin (d := d :: a) hprefix).isInfix
    · rcases ih hinfix with ha | hb
      · exact .inl (List.infix_cons ha)
      · exact .inr hb

/-- An accepted end goes alone if it is accepted with nothing before it. -/
theorem dropLongestEnd_append {accepts : Text → Bool} {y : Text} (hy : accepts y = true)
    (hlonger : ∀ s, s ≠ [] → accepts (s ++ y) = false) (t : Text) :
    dropLongestEnd accepts (t ++ y) = t := by
  induction t with
  | nil =>
    cases y with
    | nil => rfl
    | cons c y => exact if_pos hy
  | cons c t ih =>
    have hrejects : accepts (c :: (t ++ y)) = false := hlonger (c :: t) (List.cons_ne_nil c t)
    rw [List.cons_append, dropLongestEnd, hrejects, ih]
    rfl

/-- If a text ends with what is accepted, nothing of that end is left. -/
theorem dropLongestEnd_append_prefix {accepts : Text → Bool} {y : Text} (hy : accepts y = true)
    (t : Text) : dropLongestEnd accepts (t ++ y) <+: t := by
  induction t with
  | nil =>
    cases y with
    | nil => exact List.prefix_rfl
    | cons c y => rw [List.nil_append, dropLongestEnd, if_pos hy]
  | cons c t ih =>
    rw [List.cons_append, dropLongestEnd]
    split
    · exact List.nil_prefix
    · exact List.cons_prefix_cons.mpr ⟨rfl, ih⟩

/-- If an end is accepted with blanks before it and with nothing else, the blanks go with it. -/
theorem dropLongestEnd_eq_trimEnd {accepts : Text → Bool} {y : Text} (hne : y ≠ [])
    (hy : ∀ s, accepts (s ++ y) = s.all isBlank) (t : Text) :
    dropLongestEnd accepts (t ++ y) = trimEnd t := by
  induction t with
  | nil =>
    obtain ⟨c, cs, rfl⟩ := List.exists_cons_of_ne_nil hne
    exact if_pos (hy [])
  | cons c t ih =>
    have haccepts : accepts (c :: (t ++ y)) = (c :: t).all isBlank := hy (c :: t)
    rw [List.cons_append, dropLongestEnd, haccepts, ih, trimEnd_cons]

end Text

/-- A comment is taken up to the closing marker behind its content. -/
theorem Lexeme.through_append {close t : Text} (hne : close ≠ []) (h : Text.ClosedBy close t)
    (rest : Text) : through close (t ++ (close ++ rest)) = (t ++ close).length := by
  simp only [through, Text.offset?_append hne h, List.length_append]

namespace Lua

open Lexeme (Reads)

/-- A content in long brackets of the given level. -/
def bracketed (level : Nat) (content : Text) : Text :=
  openingBracket level ++ (content ++ closingBracket level)

/-- A comment in long brackets of the given level. -/
def longComment (level : Nat) (content : Text) : Text :=
  '-' :: '-' :: bracketed level content

variable {level : Nat} {content : Text}

theorem bracketLevel?_bracketed (level : Nat) (content rest : Text) :
    bracketLevel? (bracketed level content ++ rest) = some level := by
  rw [bracketLevel?_eq_some_iff, bracketed, List.append_assoc]
  exact List.prefix_append _ _

/-- A long bracket ends with its content. -/
theorem longBracket_bracketed (h : Text.ClosedBy (closingBracket level) content) (rest : Text) :
    longBracket level ((bracketed level content).tail ++ rest) =
      (bracketed level content).tail.length := by
  have hopening : (List.replicate level '=' ++ ['[']).length = level + 1 := by simp
  have htail : (bracketed level content).tail =
      (List.replicate level '=' ++ ['[']) ++ (content ++ closingBracket level) := rfl
  have hlength : (bracketed level content).tail.length =
      (level + 1) + (content ++ closingBracket level).length := by
    rw [htail, List.length_append, hopening]
  have hne : closingBracket level ≠ [] := List.cons_ne_nil _ _
  rw [hlength, longBracket, htail, List.append_assoc, List.drop_left' hopening, List.append_assoc,
    Lexeme.through_append hne h]

/-- A content that does not close its bracket is read as one literal. -/
theorem reads_bracketed (h : Text.ClosedBy (closingBracket level) content) (rest : Text) :
    Reads lexeme (bracketed level content ++ rest) [(.str, bracketed level content)] rest := by
  have hblank : Text.isBlank '[' = false := by decide
  have hlevel := bracketLevel?_bracketed level content rest
  change bracketLevel? ('[' :: ((bracketed level content).tail ++ rest)) = some level at hlevel
  change Reads lexeme ('[' :: ((bracketed level content).tail ++ rest)) _ _
  refine .piece ?_ (.done rest)
  simp [lexeme, hblank, hlevel, longBracket_bracketed h rest]

/-- With two dashes before it the bracket is a comment, and is one token as well. -/
theorem reads_longComment (h : Text.ClosedBy (closingBracket level) content) (rest : Text) :
    Reads lexeme (longComment level content ++ rest) [(.comment, longComment level content)]
      rest := by
  have hblank : Text.isBlank '-' = false := by decide
  have hcomment : comment (bracketed level content ++ rest) = (bracketed level content).length := by
    rw [comment, bracketLevel?_bracketed]
    change 1 + longBracket level ((bracketed level content).tail ++ rest) = _
    rw [longBracket_bracketed h, Nat.add_comm]
    rfl
  change Reads lexeme ('-' :: ('-' :: bracketed level content ++ rest)) _ _
  refine .piece ?_ (.done rest)
  simp [lexeme, hblank, hcomment, Nat.add_comm]

/-- A closing bracket is no part of another one that ends where it ends. -/
theorem isClosing_append {s : Text} (hs : s ≠ []) :
    isClosing (s ++ closingBracket level) = false := by
  rw [Bool.eq_false_iff]
  intro h
  obtain ⟨other, rest, heq, hrest⟩ := isClosing_iff.mp h
  have hconcat (n : Nat) : closingBracket n = (']' :: List.replicate n '=') ++ [']'] := rfl
  rcases List.eq_nil_or_concat' rest with rfl | ⟨blanks, c, rfl⟩
  · -- the first square bracket would stand among the equals signs of the other one
    rw [List.append_nil, hconcat level, hconcat other, ← List.append_assoc] at heq
    obtain ⟨d, s, rfl⟩ := List.exists_cons_of_ne_nil hs
    have hsigns := (List.cons_eq_cons.mp (List.append_cancel_right heq)).2
    have hmem : ']' ∈ List.replicate other '=' := by
      rw [← hsigns]
      simp
    exact absurd (List.eq_of_mem_replicate hmem) (by decide)
  · -- the second one would be blank
    rw [hconcat level, ← List.append_assoc, ← List.append_assoc] at heq
    have hlast : [']'] = [c] := List.append_inj_right' heq rfl
    rw [← hlast, List.all_append] at hrest
    exact absurd (Bool.and_eq_true_iff.mp hrest).2 (by decide)

/-- The dashes of a doc comment are dropped in front of the content; none are taken from the closing
    bracket. -/
theorem dropDashes_append_closing :
    dropDashes (content ++ closingBracket level) = dropDashes content ++ closingBracket level := by
  have hdrop : (content ++ closingBracket level).dropWhile (· == '-') =
      content.dropWhile (· == '-') ++ closingBracket level := by
    rw [List.dropWhile_append]
    split
    · rename_i hempty
      rw [List.isEmpty_iff.mp hempty]
      rfl
    · rfl
  rw [dropDashes, dropDashes, hdrop]
  cases content.dropWhile (· == '-') with
  | nil => rfl
  | cons c cs => by_cases hc : c = ' ' <;> simp [Text.dropSpace, hc]

/-- The text of a long comment is its content, but for dashes at its start. -/
theorem body_longComment : body (longComment level content) = dropDashes content := by
  have hcontent : longContent? (longComment level content) =
      some (content ++ closingBracket level) :=
    longContent?_eq_some_iff.mpr ⟨level, rfl⟩
  have hclosing : isClosing (closingBracket level) = true :=
    isClosing_iff.mpr ⟨level, [], by simp, rfl⟩
  rw [body, hcontent]
  change Text.dropLongestEnd isClosing (dropDashes (content ++ closingBracket level)) = _
  rw [dropDashes_append_closing]
  exact Text.dropLongestEnd_append hclosing (fun s => isClosing_append) _

end Lua

namespace C

open Lexeme (Reads)

/-- A line of a block comment: a text behind a star. -/
def starLine (line : Text) : Text :=
  ' ' :: '*' :: ' ' :: line

/-- A block comment with the given texts on its lines. -/
def starred (lines : List Text) : Text :=
  ("/**" : Text) ++ (lines.flatMap ('\n' :: starLine ·) ++ "\n */")

/-- Whether a text can stand on a line of a block comment. -/
def FitsLine (line : Text) : Prop :=
  '\n' ∉ line ∧ '\r' ∉ line ∧ ¬ ("*/" : Text) <:+: line

/-- Decided on the line, so that concrete comments can be checked. -/
instance (line : Text) : Decidable (FitsLine line) :=
  inferInstanceAs (Decidable (_ ∧ _ ∧ ¬ _))

/-- Blanks stand between what might close the comment early. -/
theorem not_infix_starred {lines : List Text} (h : ∀ line ∈ lines, ¬ ("*/" : Text) <:+: line)
    {first : Text} (hfirst : ¬ ("*/" : Text) <:+: first) :
    ¬ ("*/" : Text) <:+: first ++ (lines.flatMap ('\n' :: starLine ·) ++ "\n ") := by
  have hfeed : '\n' ∉ ("*/" : Text) := by decide
  have hspace : ' ' ∉ ("*/" : Text) := by decide
  intro hmem
  induction lines generalizing first with
  | nil =>
    rcases Text.infix_of_infix_append_cons hfeed hmem with hmem | hmem
    · exact hfirst hmem
    · exact absurd hmem (by decide)
  | cons line lines ih =>
    obtain ⟨hline, hlines⟩ := List.forall_mem_cons.mp h
    rw [List.flatMap_cons, List.append_assoc] at hmem
    rcases Text.infix_of_infix_append_cons hfeed hmem with hmem | hmem
    · exact hfirst hmem
    · rcases Text.infix_of_infix_append_cons hspace (a := [' ', '*']) hmem with hmem | hmem
      · exact absurd hmem (by decide)
      · exact ih hlines hline hmem

/-- A star at the end of a text is followed by the star of the closing marker. -/
theorem closedBy_of_not_found {t : Text} (h : ¬ ("*/" : Text) <:+: t) : Text.ClosedBy "*/" t := by
  intro i hi hprefix
  rw [List.drop_append_of_le_length hi.le] at hprefix
  have hsuffix := List.drop_suffix i t
  cases hdrop : t.drop i with
  | nil =>
    have hlength := congrArg List.length hdrop
    rw [List.length_drop, List.length_nil] at hlength
    omega
  | cons c cs =>
    rw [hdrop] at hprefix hsuffix
    cases cs with
    | nil => simp at hprefix
    | cons d ds =>
      have hstart : ("*/" : Text) <+: c :: d :: ds := by
        simpa using hprefix
      exact h (hstart.isInfix.trans hsuffix.isInfix)

/-- A block comment ends with its content. -/
theorem reads_block {t : Text} (h : Text.ClosedBy "*/" t) (rest : Text) :
    Reads lexeme ('/' :: '*' :: (t ++ "*/") ++ rest) [(.comment, '/' :: '*' :: (t ++ "*/"))]
      rest := by
  have hblank : Text.isBlank '/' = false := by decide
  have hthrough := Lexeme.through_append (by decide) h rest
  rw [← List.append_assoc] at hthrough
  change Reads lexeme ('/' :: ('*' :: (t ++ "*/") ++ rest)) _ _
  refine .piece ?_ (.done rest)
  rw [lexeme, if_neg (by rw [hblank]; decide), if_neg (by simp), if_pos (by simp)]
  change (Token.Kind.comment, 1 + Lexeme.through "*/" (t ++ "*/" ++ rest)) = _
  rw [hthrough, Nat.add_comm]
  rfl

/-- A starred comment ends in a line that holds only its closing marker. -/
theorem starred_eq (lines : List Text) :
    starred lines =
      '/' :: '*' :: ('*' :: (lines.flatMap ('\n' :: starLine ·) ++ "\n ") ++ "*/") := by
  simp [starred]

theorem reads_starred {lines : List Text} (h : ∀ line ∈ lines, ¬ ("*/" : Text) <:+: line)
    (rest : Text) : Reads lexeme (starred lines ++ rest) [(.comment, starred lines)] rest := by
  have hstar : ¬ ("*/" : Text) <:+: ['*'] := by decide
  rw [starred_eq]
  exact reads_block (closedBy_of_not_found (not_infix_starred h hstar)) rest

theorem dropStar_starLine (line : Text) : dropStar (starLine line) = line :=
  rfl

/-- The marker on the last line of a comment goes with the blanks before it. -/
theorem isClosing_append (s : Text) : isClosing (s ++ "\n */") = s.all Text.isBlank := by
  rw [isClosing, List.dropWhile_append]
  cases hs : s.dropWhile Text.isBlank with
  | nil =>
    rw [List.all_eq_true.mpr (List.dropWhile_eq_nil_iff.mp hs)]
    rfl
  | cons c cs =>
    have hall : s.all Text.isBlank = false := by
      rw [Bool.eq_false_iff, Ne, List.all_eq_true, ← List.dropWhile_eq_nil_iff, hs]
      exact List.cons_ne_nil c cs
    have hmore : ((cs ++ "\n */").dropWhile (· == '*') == ['/']) = false := by
      rw [beq_eq_false_iff_ne, List.dropWhile_append]
      split
      · decide
      · intro heq
        have hlength := congrArg List.length heq
        simp at hlength
    rw [hall]
    by_cases hc : c = '*'
    · subst hc
      exact hmore
    · simp [hc]

/-- A line that loses the blanks at its end may lose the space behind its star. -/
theorem dropStar_trimEnd (line : Text) :
    dropStar (Text.trimEnd (starLine line)) = Text.trimEnd line := by
  cases hline : line.all Text.isBlank with
  | true =>
    have hspace : (' ' :: line).all Text.isBlank = true := hline
    have htrimmed : Text.trimEnd line = [] := Text.trimEnd_append_blank [] hline
    have hstar : Text.trimEnd (starLine line) = [' ', '*'] :=
      Text.trimEnd_append_blank [' ', '*'] hspace
    rw [hstar, htrimmed]
    rfl
  | false =>
    have hstar : Text.trimEnd (starLine line) = starLine (Text.trimEnd line) :=
      Text.trimEnd_append_of_not_blank [' ', '*', ' '] hline
    rw [hstar, dropStar_starLine]

/-- What is left of a comment without its markers are its lines behind an empty one. -/
theorem trimEnd_starLines (lines : List Text) (last : Text) :
    Text.trimEnd ((lines ++ [last]).flatMap ('\n' :: starLine ·)) =
      Text.join "\n" ([] :: (lines.map starLine ++ [Text.trimEnd (starLine last)])) := by
  have hjoin (line : Text) : (lines ++ [line]).flatMap ('\n' :: starLine ·) =
      lines.flatMap ('\n' :: starLine ·) ++ '\n' :: starLine line := by
    simp
  have hblank : ('\n' :: starLine last).all Text.isBlank = false := rfl
  have hstar : Text.trimEnd ('\n' :: starLine last) = '\n' :: Text.trimEnd (starLine last) :=
    Text.trimEnd_append_of_not_blank ['\n'] rfl
  rw [hjoin, Text.trimEnd_append_of_not_blank _ hblank, hstar, Text.join_cons, List.flatMap_append,
    List.flatMap_map]
  simp

/-- Only the last line loses the blanks at its end, when the closing marker is cut off. -/
theorem lines_starLines {lines : List Text} {last : Text}
    (h : ∀ line ∈ lines ++ [last], FitsLine line) :
    Text.lines (Text.trimEnd ((lines ++ [last]).flatMap ('\n' :: starLine ·))) =
      [] :: (lines.map starLine ++ [Text.trimEnd (starLine last)]) := by
  have hends {line t : Text} (hline : FitsLine line) (ht : t <+: starLine line) :
      '\n' ∉ t ∧ t.getLast? ≠ some '\r' := by
    constructor
    · intro hmem
      exact hline.1 (by simpa [starLine] using ht.subset hmem)
    · intro hlast
      exact hline.2.1 (by simpa [starLine] using ht.subset (List.mem_of_getLast? hlast))
  have hlast : Text.trimEnd (starLine last) ≠ [] := by
    have hspace : Text.trimEnd (starLine last) = ' ' :: Text.trimEnd ('*' :: ' ' :: last) :=
      Text.trimEnd_append_of_not_blank [' '] rfl
    rw [hspace]
    exact List.cons_ne_nil _ _
  rw [trimEnd_starLines]
  apply Text.lines_join
  · intro t ht
    rcases List.mem_cons.mp ht with rfl | ht
    · exact ⟨List.not_mem_nil, by simp⟩
    · rcases List.mem_append.mp ht with ht | ht
      · obtain ⟨line, hline, rfl⟩ := List.mem_map.mp ht
        exact hends (h line (List.mem_append_left _ hline)) List.prefix_rfl
      · rw [List.mem_singleton.mp ht]
        exact hends (h last (by simp)) (List.rdropWhile_prefix _ _)
  · rw [← List.cons_append, List.getLast?_concat]
    rintro t ⟨⟩
    exact hlast

/-- The text of a starred comment is made of its lines, behind an empty one. -/
theorem body_starred {lines : List Text} {last : Text}
    (h : ∀ line ∈ lines ++ [last], FitsLine line) :
    body (starred (lines ++ [last])) = '\n' :: Text.join "\n" (lines ++ [Text.trimEnd last]) := by
  have hcontent : ∃ t, (lines ++ [last]).flatMap ('\n' :: starLine ·) ++ "\n */" = '\n' :: t := by
    cases lines with
    | nil => exact ⟨_, rfl⟩
    | cons line lines => exact ⟨_, rfl⟩
  obtain ⟨t, ht⟩ := hcontent
  have hstarred : starred (lines ++ [last]) = '/' :: '*' :: '*' :: '\n' :: t :=
    congrArg ('/' :: '*' :: '*' :: ·) ht
  have hbody : body ('/' :: '*' :: '*' :: '\n' :: t) =
      Text.join "\n" ((Text.lines (Text.dropLongestEnd isClosing ('\n' :: t))).map dropStar) := rfl
  have hstars : (lines.map starLine).map dropStar = lines := by
    simp [Function.comp_def, dropStar_starLine]
  rw [hstarred, hbody, ← ht, Text.dropLongestEnd_eq_trimEnd (by decide) isClosing_append,
    lines_starLines h, List.map_cons, List.map_append, hstars, List.map_singleton,
    dropStar_trimEnd]
  obtain ⟨u, us, hcons⟩ : ∃ u us, lines ++ [Text.trimEnd last] = u :: us :=
    List.exists_cons_of_ne_nil (by simp)
  rw [hcons]
  exact Text.join_cons_cons "\n" [] u us

end C

namespace Language

/-- Block comments keep their content. A long comment is one token wherever a token starts with it,
    and its text is the content without the dashes it starts with and one space after them; without
    the two dashes it is a string literal. A block comment with lines behind stars is one token,
    too; its text is those lines behind an empty one, and only the last of them loses the blanks at
    its end. -/
theorem blockComments_keep_content :
    (∀ level content, Text.ClosedBy (Lua.closingBracket level) content →
      lua.ReadsAs .comment (Lua.longComment level content) ∧
      lua.body (Lua.longComment level content) =
        Text.dropSpace (content.dropWhile (· == '-')) ∧
      lua.ReadsAs .str (Lua.bracketed level content)) ∧
    ∀ lines last, (∀ line ∈ lines ++ [last], C.FitsLine line) →
      c.ReadsAs .comment (C.starred (lines ++ [last])) ∧
      c.body (C.starred (lines ++ [last])) =
        '\n' :: Text.join "\n" (lines ++ [Text.trimEnd last]) := by
  constructor
  · intro level content hclosed
    refine ⟨?_, Lua.body_longComment, ?_⟩
    · exact readsAs_of_reads (by decide) (Lua.reads_longComment hclosed)
    · exact readsAs_of_reads (by decide) (Lua.reads_bracketed hclosed)
  · intro lines last hlines
    refine ⟨?_, C.body_starred hlines⟩
    exact readsAs_of_reads (by decide) (C.reads_starred fun line hline => (hlines line hline).2.2)

/-- A content with brackets of other levels, and one whose lines have stars, slashes and blanks at
    their ends. -/
theorem blockComments_keep_content_tricky :
    Text.ClosedBy (Lua.closingBracket 1) "-- a]]b]==]" ∧
      (∃ line more, (lua.tokens "x--[=[-- a]]b]==]]=]y").drop 1 =
        ⟨.comment, "--[=[-- a]]b]==]]=]", line⟩ :: more) ∧
      lua.body "--[=[-- a]]b]==]]=]" = "a]]b]==]" ∧
      (∃ line more, lua.tokens "[=[-- a]]b]==]]=]y" =
        ⟨.str, "[=[-- a]]b]==]]=]", line⟩ :: more) ∧
      (∀ line ∈ [("* a *" : Text), "/ b  "] ++ [(" c \t" : Text)], C.FitsLine line) ∧
      (∃ line more, (c.tokens "x/**\n * * a *\n * / b  \n *  c \t\n */*/").drop 1 =
        ⟨.comment, "/**\n * * a *\n * / b  \n *  c \t\n */", line⟩ :: more) ∧
      c.body "/**\n * * a *\n * / b  \n *  c \t\n */" = "\n* a *\n/ b  \n c" := by
  have hclosed : Text.ClosedBy (Lua.closingBracket 1) "-- a]]b]==]" := by decide +kernel
  have hlines : ∀ line ∈ [("* a *" : Text), "/ b  "] ++ [(" c \t" : Text)], C.FitsLine line := by
    decide +kernel
  obtain ⟨hcomment, hbody, hstr⟩ := blockComments_keep_content.1 1 "-- a]]b]==]" hclosed
  obtain ⟨hblock, htext⟩ := blockComments_keep_content.2 _ _ hlines
  refine ⟨hclosed, ?_, ?_, ?_, hlines, ?_, ?_⟩
  · exact hcomment _ _ _ "y" (List.take_append_drop 1 _).symm (by decide +kernel)
  · exact hbody
  · exact hstr "[=[-- a]]b]==]]=]y" [] _ "y" rfl (by decide +kernel)
  · exact hblock _ _ _ "*/" (List.take_append_drop 1 _).symm (by decide +kernel)
  · exact htext

end Language

end SourceDoc
