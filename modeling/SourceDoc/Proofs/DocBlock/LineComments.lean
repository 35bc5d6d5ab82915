import SourceDoc.Proofs.DocBlock.Written
import SourceDoc.Proofs.Token.Lossless

namespace SourceDoc

open Lexeme (Reads)

namespace Language

/-- How a doc comment on a line of its own starts, up to its text. -/
def docMarker : Language → Text
  | .lua => "--- "
  | .c => "/// "

/-- How a line comment that goes on with a block starts, up to its text. -/
def lineMarker : Language → Text
  | .lua => "-- "
  | .c => "/// "

/-- Line comments that go on with a block, each on a line of its own. What stands before the marker
    is given with each line: blank lines, and the blanks that indent it. -/
def continuing (lang : Language) (more : List (Text × Text)) : Text :=
  more.flatMap fun (gap, line) => '\n' :: gap ++ (lang.lineMarker ++ line)

/-- A doc comment and line comments that go on with it. -/
def lineComments (lang : Language) (first : Text) (more : List (Text × Text)) : Text :=
  lang.docMarker ++ first ++ lang.continuing more

/-- The tokens of the line comments that go on with a block, and of the blanks before them. -/
def continuingPieces (lang : Language) (more : List (Text × Text)) : List Token.Piece :=
  more.flatMap fun (gap, line) => [(.space, '\n' :: gap), (.comment, lang.lineMarker ++ line)]

/-- The token of the blanks a source ends with, if there are any. -/
def endingPieces (ending : Text) : List Token.Piece :=
  if ending.isEmpty then [] else [(.space, ending)]

variable (lang : Language)

theorem isDoc_docMarker (line : Text) : lang.isDoc (lang.docMarker ++ line) = true := by
  cases lang <;> rfl

/-- The other marker never opens a block, even if what follows it looks like a marker. -/
theorem opensBlock_lineMarker (line : Text) : lang.opensBlock (lang.lineMarker ++ line) = false := by
  cases lang <;> rfl

/-- The marker and one space are taken off, and nothing of the line. -/
theorem body_docMarker (line : Text) : lang.body (lang.docMarker ++ line) = line := by
  cases lang <;> rfl

/-- The marker that goes on with a block is taken off, and nothing of the line. -/
theorem body_lineMarker (line : Text) : lang.body (lang.lineMarker ++ line) = line := by
  cases lang <;> rfl

end Language

namespace C

/-- A line comment ends with its line. -/
theorem reads_comment {t rest : Text} (ht : '\n' ∉ t) (hrest : ∀ c ∈ rest.head?, c = '\n') :
    Reads lexeme ('/' :: '/' :: t ++ rest) [(.comment, '/' :: '/' :: t)] rest := by
  have hblank : Text.isBlank '/' = false := by decide
  have hfeed : '\n' ∉ '/' :: t := by simpa using ht
  have hline : Lexeme.restOfLine ('/' :: t ++ rest) = ('/' :: t).length :=
    Lexeme.restOfLine_append hfeed hrest
  change Reads lexeme ('/' :: ('/' :: t ++ rest)) _ _
  refine .piece ?_ (.done _)
  simp [lexeme, hblank, ← hline]

end C

namespace Language

variable {lang : Language} {rest : Text}

theorem reads_blanks {t : Text} (ht : t.all Text.isBlank = true) (hne : t ≠ [])
    (hrest : ∀ c ∈ rest.head?, Text.isBlank c = false) :
    Reads lang.lexeme (t ++ rest) [(.space, t)] rest := by
  refine Lexeme.reads_blanks ?_ ht hne hrest
  intro c cs hc
  cases lang with
  | lua => simp [lexeme, Lua.lexeme, hc]
  | c => simp [lexeme, C.lexeme, hc]

/-- A line comment may start with the marker of a doc comment or with the one that goes on with a
    block. -/
theorem reads_lineComment {marker line : Text}
    (hmarker : marker = lang.docMarker ∨ marker = lang.lineMarker) (hline : '\n' ∉ line)
    (hrest : ∀ c ∈ rest.head?, c = '\n') :
    Reads lang.lexeme (marker ++ line ++ rest) [(.comment, marker ++ line)] rest := by
  cases lang with
  | lua =>
    rcases hmarker with rfl | rfl
    · exact Lua.reads_comment (t := '-' :: ' ' :: line) (by simpa using hline) (by simp) hrest
    · exact Lua.reads_comment (t := ' ' :: line) (by simpa using hline) (by simp) hrest
  | c =>
    have hslash : '\n' ∉ '/' :: ' ' :: line := by simpa using hline
    rcases hmarker with rfl | rfl <;> exact C.reads_comment hslash hrest

theorem isBlank_head_lineMarker (t : Text) :
    ∀ c ∈ (lang.lineMarker ++ t).head?, Text.isBlank c = false := by
  intro c hc
  cases lang <;> cases hc <;> decide

/-- A source that does not start with a number sign is read by the rule from its first line on. -/
theorem tokens_eq_placed {src : Text} {pieces : List Token.Piece}
    (h : Reads lang.lexeme src pieces []) (hsrc : src.head? ≠ some '#') :
    lang.tokens src = Token.placed 1 pieces := by
  cases lang with
  | lua => exact Lua.tokens_eq_placed h hsrc
  | c =>
    have htokens := h.tokens_eq 1
    rw [Lexeme.tokens, List.append_nil] at htokens
    exact htokens

/-- Each comment that follows starts on a new line, so a comment before it ends there. -/
theorem head?_continuing (more : List (Text × Text)) {ending : Text}
    (hending : ∀ c ∈ ending.head?, c = '\n') :
    ∀ c ∈ (lang.continuing more ++ ending).head?, c = '\n' := by
  cases more with
  | nil => exact hending
  | cons entry more =>
    intro c hc
    cases hc
    rfl

theorem reads_ending {ending : Text} (hending : ending.all Text.isBlank = true) :
    Reads lang.lexeme ending (endingPieces ending) [] := by
  by_cases hnil : ending = []
  · rw [hnil]
    exact .done []
  · have hblanks : Reads lang.lexeme (ending ++ []) [(.space, ending)] [] :=
      reads_blanks hending hnil (by simp)
    simpa [endingPieces, hnil] using hblanks

/-- Line comments that go on with a block are tokens of their own, and so are the blanks between
    them. -/
theorem reads_continuing {more : List (Text × Text)} {ending : Text}
    (hlines : ∀ entry ∈ more, '\n' ∉ entry.2)
    (hgaps : ∀ entry ∈ more, entry.1.all Text.isBlank = true)
    (hending : ∀ c ∈ ending.head?, c = '\n') :
    Reads lang.lexeme (lang.continuing more ++ ending) (lang.continuingPieces more) ending := by
  induction more with
  | nil => exact .done ending
  | cons entry more ih =>
    obtain ⟨gap, line⟩ := entry
    obtain ⟨hline, hlines⟩ := List.forall_mem_cons.mp hlines
    obtain ⟨hgap, hgaps⟩ := List.forall_mem_cons.mp hgaps
    have hblank : ('\n' :: gap).all Text.isBlank = true := by
      rw [List.all_cons, hgap]
      decide
    have hsplit : lang.continuing ((gap, line) :: more) ++ ending =
        '\n' :: gap ++ (lang.lineMarker ++ line ++ (lang.continuing more ++ ending)) := by
      simp [continuing]
    rw [hsplit]
    have hgapReads : Reads lang.lexeme
        ('\n' :: gap ++ (lang.lineMarker ++ line ++ (lang.continuing more ++ ending)))
        [(.space, '\n' :: gap)] (lang.lineMarker ++ line ++ (lang.continuing more ++ ending)) := by
      refine reads_blanks hblank (List.cons_ne_nil _ _) ?_
      rw [List.append_assoc]
      exact isBlank_head_lineMarker _
    exact hgapReads.append
      ((reads_lineComment (.inr rfl) hline (head?_continuing more hending)).append (ih hlines hgaps))

theorem flatMap_continuingPieces (more : List (Text × Text)) :
    (lang.continuingPieces more).flatMap (·.2) = lang.continuing more := by
  simp [continuingPieces, continuing, List.flatMap_assoc]

end Language

namespace DocBlock

variable {lang : Language}

theorem continuation_ending (line place : Nat) (ending : Text) :
    continuation lang line (Token.placed place (Language.endingPieces ending)) = ⟨[], line, []⟩ := by
  unfold Language.endingPieces
  split
  · rfl
  · rw [Token.placed, continuation_space _ _ _ rfl]
    rfl

/-- Line comments that open no block give their lines to the block before them, and it ends where
    the last of them does. -/
theorem continuation_continuingPieces (more : List (Text × Text)) (ending : Text) (line : Nat) :
    continuation lang line
        (Token.placed line (lang.continuingPieces more ++ Language.endingPieces ending)) =
      ⟨more.map (·.2), Token.lineAfter line (lang.continuingPieces more), []⟩ := by
  induction more generalizing line with
  | nil => exact continuation_ending line line ending
  | cons entry more ih =>
    obtain ⟨gap, text⟩ := entry
    let comment : Token :=
      ⟨.comment, lang.lineMarker ++ text, line + Text.newlines ('\n' :: gap)⟩
    have hpieces : lang.continuingPieces ((gap, text) :: more) =
        (.space, '\n' :: gap) :: (.comment, lang.lineMarker ++ text) ::
          lang.continuingPieces more := rfl
    -- what follows is placed on the line on which the comment ends
    have hplace : line + Text.newlines ('\n' :: gap) + Text.newlines (lang.lineMarker ++ text) =
        comment.endLine := rfl
    rw [hpieces, List.cons_append, List.cons_append, Token.placed, Token.placed,
      continuation_space _ _ _ rfl, hplace,
      continuation_comment (t := comment) _ _ _ rfl (lang.opensBlock_lineMarker text),
      lang.body_lineMarker, ih comment.endLine]
    rfl

/-- Text survives being written as line comments. Lines without line feeds, of which the first is
    written as a doc comment and the others as line comments, with any blank lines between them, are
    read as one block. Its text is these lines, character for character; it starts on the line of
    the first comment and ends on that of the last, is the first of its file and declares
    nothing. -/
theorem scan_lineComments (lang : Language) (file : Path) {first : Text}
    {more : List (Text × Text)} {ending : Text} (hfirst : '\n' ∉ first)
    (hlines : ∀ entry ∈ more, '\n' ∉ entry.2)
    (hgaps : ∀ entry ∈ more, entry.1.all Text.isBlank = true)
    (hending : ending.all Text.isBlank = true) (hfeed : ∀ c ∈ ending.head?, c = '\n') :
    scan lang file (lang.lineComments first more ++ ending) =
      .ok [⟨Text.join "\n" (first :: more.map (·.2)), 1,
        1 + Text.newlines (lang.lineComments first more), none, true⟩] := by
  have hreads : Reads lang.lexeme (lang.lineComments first more ++ ending)
      ((.comment, lang.docMarker ++ first) ::
        (lang.continuingPieces more ++ Language.endingPieces ending)) [] := by
    rw [Language.lineComments, List.append_assoc]
    exact (Language.reads_lineComment (.inl rfl) hfirst (Language.head?_continuing more hfeed)).append
      ((Language.reads_continuing hlines hgaps hfeed).append (Language.reads_ending hending))
  let comment : Token := ⟨.comment, lang.docMarker ++ first, 1⟩
  let behind := Token.placed comment.endLine
    (lang.continuingPieces more ++ Language.endingPieces ending)
  have htokens : lang.tokens (lang.lineComments first more ++ ending) = comment :: behind := by
    refine Language.tokens_eq_placed hreads ?_
    cases lang <;> simp [Language.lineComments, Language.docMarker]
  have hopened : opened lang comment behind = ⟨first :: more.map (·.2),
      1 + Text.newlines (lang.lineComments first more), []⟩ := by
    have hend : Token.lineAfter comment.endLine (lang.continuingPieces more) =
        1 + Text.newlines (lang.lineComments first more) := by
      rw [Token.lineAfter_eq, Language.flatMap_continuingPieces, Token.endLine, Nat.add_assoc]
      exact congrArg (1 + ·) List.count_append.symm
    rw [opened, continuation_continuingPieces more ending, lang.body_docMarker, hend]
  have hdocuments : documents lang comment (opened lang comment behind) = true :=
    Bool.or_eq_true_iff.mpr (.inl (lang.isDoc_docMarker first))
  refine ofTokens_eq_ok_iff.mpr ⟨?_, ?_⟩
  · rw [htokens, startsDocumented, if_pos rfl, hdocuments]
  · rw [htokens, later_documented lang _ rfl hdocuments, close, hopened]
    rw [lookahead, later]
    rfl

/-- Lines that look like markers, brackets, tags and blanks. -/
def trickyLines : List (Text × Text) :=
  [("\n \t\n", "--[[ @param x"), ([], "  "), ("\n", "*/ ]] \r")]

theorem scan_lineComments_tricky :
    (∀ entry ∈ trickyLines, '\n' ∉ entry.2 ∧ entry.1.all Text.isBlank = true) ∧
    scan .lua ⟨"m.lua"⟩
        ("--- - [[a\n\n \t\n-- --[[ @param x\n--   \n\n-- */ ]] \r\n" : Text) =
      .ok [⟨"- [[a\n--[[ @param x\n  \n*/ ]] \r", 1, 7, none, true⟩] ∧
    scan .c ⟨"m.c"⟩ ("/// - [[a\n\n \t\n/// --[[ @param x\n///   \n\n/// */ ]] \r" : Text) =
      .ok [⟨"- [[a\n--[[ @param x\n  \n*/ ]] \r", 1, 7, none, true⟩] := by
  have hfirst : '\n' ∉ ("- [[a" : Text) := by decide
  have hlines : ∀ entry ∈ trickyLines, '\n' ∉ entry.2 := by decide
  have hgaps : ∀ entry ∈ trickyLines, entry.1.all Text.isBlank = true := by decide
  have hended : ("\n" : Text).all Text.isBlank = true := by decide
  have hfeed : ∀ c ∈ ("\n" : Text).head?, c = '\n' := by
    rintro c ⟨⟩
    rfl
  have hunended : ([] : Text).all Text.isBlank = true := by decide
  refine ⟨fun entry hentry => ⟨hlines entry hentry, hgaps entry hentry⟩, ?_, ?_⟩
  · have hscan := scan_lineComments .lua ⟨"m.lua"⟩ hfirst hlines hgaps hended hfeed
    refine (congrArg (scan .lua _) ?_).trans (hscan.trans (congrArg Except.ok ?_))
    · decide +kernel
    · decide +kernel
  · have hscan := scan_lineComments .c ⟨"m.c"⟩ hfirst hlines hgaps hunended (by simp)
    refine (congrArg (scan .c _) ?_).trans (hscan.trans (congrArg Except.ok ?_))
    · decide +kernel
    · decide +kernel

end DocBlock

end SourceDoc
