import SourceDoc.Proofs.Language.LuaFunction

namespace SourceDoc

namespace DocBlock

theorem later_eq_nil {lang : Language} {ts : List Token} (h : ∀ t ∈ ts, t.kind ≠ .comment) :
    later lang ts = [] := by
  induction ts with
  | nil => rw [later]
  | cons t ts ih =>
    obtain ⟨ht, hts⟩ := List.forall_mem_cons.mp h
    rw [later_of_not_comment lang ts ht, ih hts]

end DocBlock

namespace Lua

open Lexeme (Reads)

/-- Line comments on lines of their own, each given by what follows its two dashes. -/
def commentLines (contents : List Text) : Text :=
  contents.flatMap fun content => '-' :: '-' :: content ++ ['\n']

/-- The tokens of line comments on lines of their own. -/
def linePieces (contents : List Text) : List Token.Piece :=
  contents.flatMap fun content => [(.comment, '-' :: '-' :: content), (.space, ['\n'])]

theorem head?_commentLines (contents : List Text) (rest : Text)
    (hrest : ∀ c ∈ rest.head?, Text.isBlank c = false) :
    ∀ c ∈ (commentLines contents ++ rest).head?, Text.isBlank c = false := by
  cases contents with
  | nil => exact hrest
  | cons content contents =>
    intro c hc
    cases hc
    decide

/-- Comment lines are tokens of their own, if none opens a long bracket. -/
theorem reads_commentLines {contents : List Text} {rest : Text}
    (hcontents : ∀ content ∈ contents, '\n' ∉ content ∧ content.head? ≠ some '[')
    (hrest : ∀ c ∈ rest.head?, Text.isBlank c = false) :
    Reads lexeme (commentLines contents ++ rest) (linePieces contents) rest := by
  induction contents with
  | nil => exact .done rest
  | cons content contents ih =>
    obtain ⟨⟨hfeed, hhead⟩, hcontents⟩ := List.forall_mem_cons.mp hcontents
    have hsplit : commentLines (content :: contents) ++ rest =
        '-' :: '-' :: content ++ (['\n'] ++ (commentLines contents ++ rest)) := by
      simp [commentLines]
    rw [hsplit]
    exact (reads_comment hfeed hhead (by simp)).append
      ((reads_blanks (t := ['\n']) (by decide) (by simp)
        (head?_commentLines contents rest hrest)).append (ih hcontents))

/-- Line comments that are no doc comments go on with a block up to the next token of code. -/
theorem continuation_linePieces {contents : List Text}
    (hcontents : ∀ content ∈ contents, isDoc ('-' :: '-' :: content) = false) (line endLine : Nat)
    {t : Token} (ht : t.isCode = true) (ts : List Token) :
    ∃ last, DocBlock.continuation .lua endLine
        (Token.placed line (linePieces contents) ++ t :: ts) =
      ⟨contents.map fun content => body ('-' :: '-' :: content), last, t :: ts⟩ := by
  induction contents generalizing line endLine with
  | nil => exact ⟨endLine, DocBlock.continuation_code .lua endLine ts ht⟩
  | cons content contents ih =>
    obtain ⟨hplain, hcontents⟩ := List.forall_mem_cons.mp hcontents
    have hpieces : linePieces (content :: contents) =
        (.comment, '-' :: '-' :: content) :: (.space, ['\n']) :: linePieces contents := rfl
    let comment : Token := ⟨.comment, '-' :: '-' :: content, line⟩
    obtain ⟨last, hlast⟩ := ih hcontents
      (line + Text.newlines comment.text + Text.newlines ['\n']) comment.endLine
    refine ⟨last, ?_⟩
    rw [hpieces, Token.placed, Token.placed, List.cons_append, List.cons_append,
      DocBlock.continuation_comment (t := comment) .lua endLine _ rfl hplain]
    rw [DocBlock.continuation_space .lua _ _ rfl, hlast]
    rfl

/-- The comments of a block that a line comment opens end at the next token of code. -/
theorem opened_linePieces (comment : Token) {contents : List Text}
    (hcontents : ∀ content ∈ contents, isDoc ('-' :: '-' :: content) = false) (line : Nat)
    {t : Token} (ht : t.isCode = true) (ts : List Token) :
    ∃ last, DocBlock.opened .lua comment
        (Token.placed line ((.space, ['\n']) :: linePieces contents) ++ t :: ts) =
      ⟨body comment.text :: contents.map fun content => body ('-' :: '-' :: content), last,
        t :: ts⟩ := by
  obtain ⟨last, hlast⟩ := continuation_linePieces hcontents (line + Text.newlines ['\n'])
    comment.endLine ht ts
  refine ⟨last, ?_⟩
  rw [DocBlock.opened, Token.placed, List.cons_append, DocBlock.continuation_space .lua _ _ rfl,
    hlast]
  rfl

/-- A source that does not start with a number sign is cut from its first line on. -/
theorem tokens_eq_placed {src : Text} {pieces : List Token.Piece} (h : Reads lexeme src pieces [])
    (hsrc : src.head? ≠ some '#') : tokens src = Token.placed 1 pieces := by
  have hshebang : ¬ ("#!" : Text).isPrefixOf src = true := by
    intro hprefix
    obtain ⟨rest, rfl⟩ := List.isPrefixOf_iff_prefix.mp hprefix
    exact hsrc rfl
  rw [tokens, if_neg hshebang, tokensFrom, h.tokens_eq, Lexeme.tokens, List.append_nil]

/-- A declaration starts with a word, which ends the comments before it. -/
theorem FunctionHead.pieces_eq_cons (f : FunctionHead) :
    ∃ text more, f.pieces = (.word, text) :: more := by
  rw [pieces, openPieces]
  cases f.isLocal with
  | true => exact ⟨_, _, rfl⟩
  | false => exact ⟨_, _, rfl⟩

theorem FunctionHead.isBlank_head (f : FunctionHead) (rest : Text) :
    ∀ c ∈ (f.text ++ rest).head?, Text.isBlank c = false := by
  rw [text]
  cases f.isLocal with
  | true => simp; decide
  | false => simp; decide

/-- The tokens of code in a declaration, on whatever line it stands. -/
theorem FunctionHead.length_code (f : FunctionHead) (line : Nat) :
    ((tokens f.text).filter Token.isCode).length =
      ((Token.placed line f.pieces).filter Token.isCode).length := by
  have hreads := f.reads []
  rw [List.append_nil] at hreads
  have hhead : f.text.head? ≠ some '#' := by
    rw [text]
    cases f.isLocal with
    | true => simp
    | false => simp
  rw [tokens_eq_placed hreads hhead, Token.length_filter_placed 1 line]

/-- The end of a function without a body. -/
theorem reads_end {ending : Text} (hending : ending.all Text.isBlank = true) :
    ∃ pieces, Reads lexeme (" end" ++ ending) pieces [] ∧ ∀ piece ∈ pieces, piece.1 ≠ .comment := by
  have hword (rest : Text) (hrest : ∀ c ∈ rest.head?, Text.isIdentChar c = false) :
      Reads lexeme ([' '] ++ (("end" : Text) ++ rest))
        [(.space, [' ']), (.word, ("end" : Text))] rest :=
    (reads_blanks (t := [' ']) (by decide) (by simp) (by simp; decide)).append
      (reads_word (by decide) hrest)
  by_cases hnil : ending = []
  · rw [hnil]
    exact ⟨_, hword [] (by simp), by simp⟩
  · have hblank : Reads lexeme (ending ++ []) [(.space, ending)] [] :=
      reads_blanks hending hnil (by simp)
    rw [List.append_nil] at hblank
    refine ⟨_, (hword ending ?_).append hblank, by simp⟩
    intro c hc
    rw [Bool.eq_false_iff]
    intro hident
    have hc : Text.isBlank c = true := List.all_eq_true.mp hending c (List.mem_of_head? hc)
    rw [Text.isBlank_of_isIdentChar hident] at hc
    cases hc

end Lua

namespace DocBlock

open Lua

/-- A doc comment with line comments after it and a function they document is one block, if the
    search for a declaration may read all tokens of the function's name and parameters. -/
theorem scan_function (f : FunctionHead) {opening : Text} {contents : List Text} {ending : Text}
    (hopening : isDoc ('-' :: '-' :: opening) = true)
    (hcontents : ∀ content ∈ contents, isDoc ('-' :: '-' :: content) = false)
    (hlines : ∀ content ∈ opening :: contents, '\n' ∉ content ∧ content.head? ≠ some '[')
    (hending : ending.all Text.isBlank = true)
    (hlimit : ((Lua.tokens f.text).filter Token.isCode).length ≤ declarationLimit) (file : Path) :
    ∃ endLine, scan .lua file
        (commentLines (opening :: contents) ++ (f.text ++ (" end" ++ ending))) =
      .ok [⟨Text.join "\n" ((opening :: contents).map fun content => body ('-' :: '-' :: content)),
        1, endLine, some ⟨f.name.text, .function f.params, f.isLocal⟩, true⟩] := by
  obtain ⟨endPieces, hend, hendComments⟩ := reads_end hending
  have hreads := (reads_commentLines hlines (f.isBlank_head _)).append
    ((f.reads (" end" ++ ending)).append hend)
  -- the tokens are the doc comment, the lines between it and the declaration, the declaration, and
  -- what is behind its closing parenthesis
  let comment : Token := ⟨.comment, '-' :: '-' :: opening, 1⟩
  let between := Token.placed (1 + Text.newlines comment.text)
    ((.space, ['\n']) :: linePieces contents)
  let line := Token.lineAfter 1 (linePieces (opening :: contents))
  let behind := Token.placed (Token.lineAfter line f.pieces) endPieces
  have htokens : Lua.tokens (commentLines (opening :: contents) ++ (f.text ++ (" end" ++ ending))) =
      comment :: (between ++ (Token.placed line f.pieces ++ behind)) := by
    rw [tokens_eq_placed hreads (by simp [commentLines]), Token.placed_append, Token.placed_append]
    rfl
  have hopened : ∃ last, opened .lua comment (between ++ (Token.placed line f.pieces ++ behind)) =
      ⟨(opening :: contents).map fun content => body ('-' :: '-' :: content), last,
        Token.placed line f.pieces ++ behind⟩ := by
    obtain ⟨text, more, hpieces⟩ := f.pieces_eq_cons
    rw [hpieces, Token.placed, List.cons_append]
    exact opened_linePieces comment hcontents _ rfl _
  obtain ⟨last, hopened⟩ := hopened
  have hdocuments : documents .lua comment
      (opened .lua comment (between ++ (Token.placed line f.pieces ++ behind))) = true :=
    Bool.or_eq_true_iff.mpr (.inl hopening)
  have hlookahead := f.lookahead_pieces line (f.length_code line ▸ hlimit) behind
  have hlater : later .lua behind = [] := later_eq_nil fun t ht =>
    hendComments _ (Token.mem_of_mem_placed ht)
  refine ⟨last, ofTokens_eq_ok_iff.mpr ⟨?_, ?_⟩⟩
  · rw [Language.tokens, htokens, startsDocumented, if_pos rfl, hdocuments]
  · rw [Language.tokens, htokens, later_documented .lua _ rfl hdocuments, close, hopened,
      hlookahead, hlater]
    rfl

end DocBlock

end SourceDoc
