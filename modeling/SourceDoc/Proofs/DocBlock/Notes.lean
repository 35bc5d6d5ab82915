import SourceDoc.Proofs.DocBlock.Grouping
import SourceDoc.Proofs.DocBlock.Layout
import SourceDoc.Proofs.DocBlock.LineComments
import SourceDoc.Proofs.Language.BlockMarkers

namespace SourceDoc

open Lexeme (Reads)

namespace Language

variable (lang : Language) {src rest : Text}

/-- The tokens but for space of a text that is not at the beginning of a file. -/
def pieces (src : Text) : List Token.Piece :=
  Token.pieces (lang.lexeme.tokens 0 src)

/-- On whatever line a text starts, its pieces are the same. -/
theorem pieces_tokens (line : Nat) (src : Text) :
    Token.pieces (lang.lexeme.tokens line src) = lang.pieces src := by
  rw [← Nat.zero_add line, Lexeme.tokens_add, Token.pieces_map_shift, pieces]

theorem pieces_of_reads {ps : List Token.Piece} (h : Reads lang.lexeme src ps rest) :
    lang.pieces src = ps.filter (·.1 ≠ .space) ++ lang.pieces rest := by
  rw [pieces, h.tokens_eq, Token.pieces_append, Token.pieces_placed, pieces_tokens]

theorem pieces_dropWhile_isBlank (src : Text) :
    lang.pieces (src.dropWhile Text.isBlank) = lang.pieces src := by
  have hsplit := List.takeWhile_append_dropWhile (p := Text.isBlank) (l := src)
  by_cases hnone : src.takeWhile Text.isBlank = []
  · rw [hnone, List.nil_append] at hsplit
    rw [hsplit]
  · have hreads : Reads lang.lexeme (src.takeWhile Text.isBlank ++ src.dropWhile Text.isBlank)
        [(.space, src.takeWhile Text.isBlank)] (src.dropWhile Text.isBlank) := by
      refine reads_blanks List.all_takeWhile hnone ?_
      intro c hc
      have hhead := List.head?_dropWhile_not Text.isBlank src
      rw [Option.mem_def.mp hc] at hhead
      exact hhead
    rw [hsplit] at hreads
    rw [pieces_of_reads lang hreads]
    rfl

/-- Blanks are none of the pieces, even if they join others that follow. -/
theorem pieces_blanks {blanks : Text} (hblanks : blanks.all Text.isBlank = true) (src : Text) :
    lang.pieces (blanks ++ src) = lang.pieces src := by
  rw [← pieces_dropWhile_isBlank, List.dropWhile_append_of_pos (List.all_eq_true.mp hblanks),
    pieces_dropWhile_isBlank]

end Language

namespace DocBlock

section Declarations

variable (lang : Language)

/-- The declaration found behind a comment and those that continue it, given the tokens after it. It
    depends on these tokens alone. -/
def declarationBehind (ts : List Token) : Option Declaration :=
  (lookahead lang .start declarationLimit (continuation lang 1 ts).rest).1.result

/-- A block declares what is found behind its comments, whatever these say. -/
theorem declaration_close_opened (isFirst : Bool) (t : Token) (ts : List Token) :
    (close lang isFirst t (opened lang t ts)).1.declaration = declarationBehind lang ts := by
  change (lookahead lang .start declarationLimit (opened lang t ts).rest).1.result = _
  rw [opened, (continuation_lines_irrelevant lang t.endLine 1 ts).2, declarationBehind]

/-- The layout of these tokens does not matter to it. -/
theorem declarationBehind_withoutLayout (ts : List Token) :
    declarationBehind lang (Token.withoutLayout ts) = declarationBehind lang ts := by
  rw [declarationBehind, (continuation_withoutLayout lang 1 1 ts).2, lookahead_withoutLayout,
    declarationBehind]

/-- A comment either joins those before it or ends them; then the search for a declaration ends
    before it has begun. -/
theorem declarationBehind_comment {t : Token} (ht : t.kind = .comment) (ts : List Token) :
    declarationBehind lang (t :: ts) =
      if lang.opensBlock t.text then none else declarationBehind lang ts := by
  cases hopens : lang.opensBlock t.text with
  | true =>
    rw [declarationBehind, continuation_opening lang 1 ts ht hopens, lookahead_comment _ _ _ _ ht]
    rfl
  | false =>
    rw [declarationBehind, continuation_comment lang 1 ts ht hopens]
    dsimp only
    rw [(continuation_lines_irrelevant lang t.endLine 1 ts).2]
    rfl

/-- A file whose first token but for space is a doc comment has a first block, and it declares what
    is found behind that comment. -/
theorem ofTokens_docComment (file : Path) {ts : List Token} {text : Text}
    {more : List Token.Piece} (h : Token.pieces ts = (.comment, text) :: more)
    (hdoc : lang.isDoc text = true) :
    ∃ b bs, ofTokens lang file ts = .ok (b :: bs) ∧
      b.declaration = declarationBehind lang (more.map fun p => ⟨p.1, p.2, 1⟩) := by
  obtain ⟨t, us, hts, hpiece, hus⟩ := List.map_eq_cons_iff.mp h
  obtain ⟨spaces, after, rfl, hspaces, -, hafter⟩ := List.filter_eq_cons_iff.mp hts
  obtain ⟨ht, rfl⟩ := Prod.mk.inj hpiece
  have hmore : Token.pieces after = more := by rw [Token.pieces, hafter, hus]
  -- The blocks are looked for from the first comment on, which the spaces before it do not change.
  have hskip : (spaces ++ t :: after).dropWhile (·.kind ≠ .comment) = t :: after := by
    rw [List.dropWhile_append_of_pos]
    · simp [ht]
    · intro u hu
      have hspace : u.kind = .space := by simpa using hspaces u hu
      simp [hspace]
  have hdocuments : documents lang t (opened lang t after) = true := by simp [documents, hdoc]
  have hblocks : ofTokens lang file (spaces ++ t :: after) =
      .ok ((close lang true t (opened lang t after)).1 ::
        later lang (close lang true t (opened lang t after)).2) := by
    rw [ofTokens, hskip]
    exact if_pos hdocuments
  refine ⟨_, _, hblocks, ?_⟩
  rw [declaration_close_opened, ← declarationBehind_withoutLayout, Token.withoutLayout, hmore]

end Declarations

variable {lead gap text note : Text}

/-- The pieces of a text that starts with a block comment. -/
theorem pieces_blockComment (h : Text.ClosedBy "*/" note) (rest : Text) :
    Language.c.pieces (C.blockComment note ++ rest) =
      (.comment, C.blockComment note) :: Language.c.pieces rest :=
  Language.pieces_of_reads .c (C.reads_block h rest)

/-- A note between a doc comment and what follows: the first block is that of the doc comment, and
    it has the same declaration as without the note. The empty comment is the only note behind which
    no declaration is found. -/
theorem scan_note_keeps_declaration (file : Path) (rest : Text)
    (hlead : lead.all Text.isBlank = true)
    (hgap : gap.all Text.isBlank = true) (htext : Text.ClosedBy "*/" ('*' :: text))
    (hnote : Text.ClosedBy "*/" note) (hplain : C.isDoc (C.blockComment note) = false) :
    ∃ b bs d ds,
      scan .c file
        (lead ++ (C.blockComment ('*' :: text) ++ (gap ++ (C.blockComment note ++ rest)))) =
          .ok (b :: bs) ∧
      scan .c file (lead ++ (C.blockComment ('*' :: text) ++ (gap ++ rest))) = .ok (d :: ds) ∧
      b.declaration = if note = [] then none else d.declaration := by
  have hpieces (src : Text) :
      Token.pieces (C.tokens (lead ++ (C.blockComment ('*' :: text) ++ (gap ++ src)))) =
        (.comment, C.blockComment ('*' :: text)) :: Language.c.pieces src := by
    change Token.pieces (Language.c.lexeme.tokens 1 _) = _
    rw [Language.pieces_tokens, Language.pieces_blanks _ hlead, pieces_blockComment htext,
      Language.pieces_blanks _ hgap]
  have hdoc : Language.c.isDoc (C.blockComment ('*' :: text)) = true := C.isDoc_blockComment text
  have hnoted := hpieces (C.blockComment note ++ rest)
  rw [pieces_blockComment hnote] at hnoted
  obtain ⟨b, bs, hb, hbdecl⟩ := ofTokens_docComment .c file hnoted hdoc
  obtain ⟨d, ds, hd, hddecl⟩ := ofTokens_docComment .c file (hpieces rest) hdoc
  refine ⟨b, bs, d, ds, hb, hd, ?_⟩
  have hopens : Language.c.opensBlock (C.blockComment note) = note.isEmpty :=
    C.opensBlock_blockComment hplain
  rw [hbdecl, hddecl, List.map_cons, declarationBehind_comment .c rfl, hopens]
  simp only [List.isEmpty_iff]

/-- A note of two lines between a doc comment and a prototype. -/
theorem scan_note_keeps_declaration_prototype :
    (("\n" : Text).all Text.isBlank = true ∧ (" " : Text).all Text.isBlank = true ∧
      Text.ClosedBy "*/" ('*' :: " Adds. *") ∧ Text.ClosedBy "*/" " see\n * @below **" ∧
      C.isDoc (C.blockComment " see\n * @below **") = false) ∧
    ∃ b bs, scan .c ⟨"m.c"⟩
        "\n/** Adds. **/ /* see\n * @below ***/\nstatic int add(int a /* left */);" =
          .ok (b :: bs) ∧
      b.declaration = some ⟨"add", .function ["a"], true⟩ := by
  have hconditions : ("\n" : Text).all Text.isBlank = true ∧ (" " : Text).all Text.isBlank = true ∧
      Text.ClosedBy "*/" ('*' :: " Adds. *") ∧ Text.ClosedBy "*/" " see\n * @below **" ∧
      C.isDoc (C.blockComment " see\n * @below **") = false := by
    decide +kernel
  obtain ⟨hlead, hgap, htext, hnote, hplain⟩ := hconditions
  obtain ⟨b, bs, d, ds, hnoted, hbare, hdeclaration⟩ :=
    scan_note_keeps_declaration ⟨"m.c"⟩ "\nstatic int add(int a /* left */);" hlead hgap htext hnote
      hplain
  have hscan : scan .c ⟨"m.c"⟩ ("\n" ++ (C.blockComment ('*' :: " Adds. *") ++
      (" " ++ "\nstatic int add(int a /* left */);"))) =
        .ok [⟨"Adds.", 2, 2, some ⟨"add", .function ["a"], true⟩, true⟩] :=
    ofTokens_eq_ok_iff.mpr ⟨by decide +kernel, by decide +kernel⟩
  obtain ⟨rfl, -⟩ := List.cons_eq_cons.mp (Except.ok.inj (hbare.symm.trans hscan))
  refine ⟨⟨hlead, hgap, htext, hnote, hplain⟩, b, bs, ?_, hdeclaration⟩
  exact (congrArg (scan .c _) (by decide +kernel)).trans hnoted

/-- The empty comment has no tag line and is no doc comment, and the declaration behind it is
    lost. -/
theorem scan_empty_note_loses_declaration :
    C.isDoc (C.blockComment []) = false ∧
      TagLine.occursIn (C.body (C.blockComment [])) = false ∧
      scan .c ⟨"m.c"⟩ "/** A */\n/**/\nint x;\n" = .ok [⟨"A", 1, 1, none, true⟩] ∧
      scan .c ⟨"m.c"⟩ "/** A */\n\nint x;\n" =
        .ok [⟨"A", 1, 1, some ⟨"x", .variable, false⟩, true⟩] :=
  ⟨by decide, by decide +kernel, ofTokens_eq_ok_iff.mpr ⟨by decide +kernel, by decide +kernel⟩,
    ofTokens_eq_ok_iff.mpr ⟨by decide +kernel, by decide +kernel⟩⟩

end DocBlock

end SourceDoc
