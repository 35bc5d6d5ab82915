import SourceDoc.Proofs.DocBlock.Basic
import SourceDoc.Proofs.Language.Reading
import SourceDoc.Proofs.Token.Boundary

namespace SourceDoc

namespace Token

/-- The tokens but for space, without their lines. -/
def pieces (ts : List Token) : List Piece :=
  (ts.filter (·.kind ≠ .space)).map piece

/-- Tokens without their layout: there is no space between them, and all are on the first line.
    Every reader takes the same way through them as before. -/
def withoutLayout (ts : List Token) : List Token :=
  (pieces ts).map fun p => ⟨p.1, p.2, 1⟩

theorem withoutLayout_space {t : Token} (ht : t.kind = .space) (ts : List Token) :
    withoutLayout (t :: ts) = withoutLayout ts := by
  rw [withoutLayout, pieces, List.filter_cons_of_neg (by simp [ht]), ← pieces, ← withoutLayout]

theorem withoutLayout_cons {t : Token} (ht : t.kind ≠ .space) (ts : List Token) :
    withoutLayout (t :: ts) = { t with line := 1 } :: withoutLayout ts := by
  rw [withoutLayout, pieces, List.filter_cons_of_pos (by simp [ht])]
  rfl

theorem kind_ne_space_of_isCode {t : Token} (ht : t.isCode = true) : t.kind ≠ .space := by
  intro hspace
  rw [isCode, hspace] at ht
  cases ht

theorem pieces_map_shift (lines : Nat) (ts : List Token) :
    pieces (ts.map (shift lines)) = pieces ts := by
  rw [pieces, List.filter_map, List.map_map, pieces]
  rfl

theorem pieces_append (ts us : List Token) : pieces (ts ++ us) = pieces ts ++ pieces us := by
  rw [pieces, List.filter_append, List.map_append, pieces, pieces]

/-- On whatever lines pieces are placed, those that are no space are left. -/
theorem pieces_placed (line : Nat) (ps : List Piece) :
    pieces (placed line ps) = ps.filter (·.1 ≠ .space) := by
  induction ps generalizing line with
  | nil => rfl
  | cons p ps ih =>
    obtain ⟨kind, text⟩ := p
    have hcons : placed line ((kind, text) :: ps) =
        [⟨kind, text, line⟩] ++ placed (line + Text.newlines text) ps := rfl
    rw [hcons, pieces_append, ih]
    by_cases hkind : kind = .space <;> simp [pieces, hkind, piece]

end Token

namespace DocBlock

open Declaration (Progress)
open Token (withoutLayout withoutLayout_space withoutLayout_cons)

/-- What a block says, wherever it stands. -/
structure Outline where
  text : Text
  declaration : Option Declaration
  isFirst : Bool
  deriving DecidableEq

/-- What is left of a block without its lines. -/
def outline (b : DocBlock) : Outline :=
  ⟨b.text, b.declaration, b.isFirst⟩

variable (lang : Language)

/-- The comments that continue a block are the same without layout, and so is what they leave. The
    lines they start from may differ. -/
theorem continuation_withoutLayout (endLine other : Nat) (ts : List Token) :
    (continuation lang other (withoutLayout ts)).bodies = (continuation lang endLine ts).bodies ∧
      (continuation lang other (withoutLayout ts)).rest =
        withoutLayout (continuation lang endLine ts).rest := by
  induction ts generalizing endLine other with
  | nil => exact ⟨rfl, rfl⟩
  | cons t ts ih =>
    rcases t.space_or_comment_or_code with ht | ht | ht
    · rw [withoutLayout_space ht, continuation_space lang endLine ts ht]
      exact ih endLine other
    · have hne : t.kind ≠ .space := by rw [ht]; decide
      cases hopens : lang.opensBlock t.text with
      | true =>
        rw [withoutLayout_cons hne, continuation_opening lang endLine ts ht hopens,
          continuation_opening (t := { t with line := 1 }) lang other _ ht hopens]
        exact ⟨rfl, (withoutLayout_cons hne ts).symm⟩
      | false =>
        rw [withoutLayout_cons hne, continuation_comment lang endLine ts ht hopens,
          continuation_comment (t := { t with line := 1 }) lang other _ ht hopens]
        obtain ⟨hbodies, hrest⟩ := ih t.endLine (Token.endLine { t with line := 1 })
        exact ⟨congrArg (lang.body t.text :: ·) hbodies, hrest⟩
    · have hne := Token.kind_ne_space_of_isCode ht
      rw [withoutLayout_cons hne, continuation_code lang endLine ts ht,
        continuation_code (t := { t with line := 1 }) lang other _ ht]
      exact ⟨rfl, (withoutLayout_cons hne ts).symm⟩

/-- A comment opens the same group of comments without layout. -/
theorem opened_withoutLayout (t : Token) (ts : List Token) :
    (opened lang { t with line := 1 } (withoutLayout ts)).bodies = (opened lang t ts).bodies ∧
      (opened lang { t with line := 1 } (withoutLayout ts)).rest =
        withoutLayout (opened lang t ts).rest := by
  obtain ⟨hbodies, hrest⟩ :=
    continuation_withoutLayout lang t.endLine (Token.endLine { t with line := 1 }) ts
  exact ⟨congrArg (lang.body t.text :: ·) hbodies, hrest⟩

/-- The search for a declaration reads the same tokens of code without layout, and so stops in the
    same state, at the same place. -/
theorem lookahead_withoutLayout (state : Progress) (limit : Nat) (ts : List Token) :
    lookahead lang state limit (withoutLayout ts) =
      ((lookahead lang state limit ts).1, withoutLayout (lookahead lang state limit ts).2) := by
  induction ts generalizing state limit with
  | nil => rfl
  | cons t ts ih =>
    rcases t.space_or_comment_or_code with ht | ht | ht
    · rw [withoutLayout_space ht, lookahead_space lang state limit ts ht]
      exact ih state limit
    · have hne : t.kind ≠ .space := by rw [ht]; decide
      rw [withoutLayout_cons hne, lookahead_comment lang state limit ts ht,
        lookahead_comment (t := { t with line := 1 }) lang state limit _ ht]
      split
      · rw [withoutLayout_cons hne]
      · exact ih state limit
    · have hne := Token.kind_ne_space_of_isCode ht
      have hstep : lang.step state { t with line := 1 } = lang.step state t := by
        rw [lang.step_eq_stepPiece, lang.step_eq_stepPiece]
        rfl
      rw [withoutLayout_cons hne, lookahead_code lang state limit ts ht,
        lookahead_code (t := { t with line := 1 }) lang state limit _ ht, hstep]
      split
      · rfl
      · exact ih _ _

section Comments

variable {lang} {c d : Comments}

/-- Whether comments document something is told by their texts, and not by where they stand. -/
theorem documents_eq_of_bodies_eq (hbodies : d.bodies = c.bodies) (t : Token) (line : Nat) :
    documents lang { t with line := line } d = documents lang t c := by
  rw [documents, documents, Comments.text, hbodies, Comments.text]

/-- Comments with the same bodies, and the same tokens behind them but for layout, give the same
    block but for its lines. -/
theorem close_withoutLayout (hbodies : d.bodies = c.bodies) (hrest : d.rest = withoutLayout c.rest)
    (isFirst : Bool) (t : Token) :
    (close lang isFirst { t with line := 1 } d).1.outline = (close lang isFirst t c).1.outline ∧
      (close lang isFirst { t with line := 1 } d).2 =
        withoutLayout (close lang isFirst t c).2 := by
  unfold close
  rw [hrest, lookahead_withoutLayout]
  refine ⟨?_, rfl⟩
  simp only [outline, Comments.text, hbodies]

end Comments

/-- All blocks say the same without layout, and there are as many. -/
theorem later_withoutLayout (ts : List Token) :
    (later lang (withoutLayout ts)).map outline = (later lang ts).map outline := by
  induction ts using later.induct lang with
  | case1 => rfl
  | case2 t ts ht comments hdoc ih =>
    obtain ⟨hbodies, hrest⟩ := opened_withoutLayout lang t ts
    obtain ⟨hblock, hleft⟩ := close_withoutLayout hbodies hrest false t
    have hdoc' : documents lang { t with line := 1 }
        (opened lang { t with line := 1 } (withoutLayout ts)) = true := by
      rw [documents_eq_of_bodies_eq hbodies]
      exact hdoc
    rw [withoutLayout_cons (by rw [ht]; decide), later_documented lang ts ht hdoc,
      later_documented (t := { t with line := 1 }) lang _ ht hdoc', List.map_cons, List.map_cons,
      hblock, hleft, ih]
  | case3 t ts ht comments hdoc ih =>
    obtain ⟨hbodies, hrest⟩ := opened_withoutLayout lang t ts
    have hdoc : documents lang t comments = false := by simpa using hdoc
    have hdoc' : documents lang { t with line := 1 }
        (opened lang { t with line := 1 } (withoutLayout ts)) = false := by
      rw [documents_eq_of_bodies_eq hbodies]
      exact hdoc
    rw [withoutLayout_cons (by rw [ht]; decide), later_plain lang ts ht hdoc,
      later_plain (t := { t with line := 1 }) lang _ ht hdoc', hrest, ih]
  | case4 t ts ht ih =>
    rw [later_of_not_comment lang ts ht]
    by_cases hspace : t.kind = .space
    · rw [withoutLayout_space hspace, ih]
    · rw [withoutLayout_cons hspace, later_of_not_comment (t := { t with line := 1 }) lang _ ht, ih]

theorem startsDocumented_withoutLayout (ts : List Token) :
    startsDocumented lang (withoutLayout ts) = startsDocumented lang ts := by
  induction ts with
  | nil => rfl
  | cons t ts ih =>
    by_cases ht : t.kind = .comment
    · rw [withoutLayout_cons (by rw [ht]; decide), startsDocumented, startsDocumented, if_pos ht,
        if_pos ht]
      exact documents_eq_of_bodies_eq (opened_withoutLayout lang t ts).1 t 1
    · rw [startsDocumented, if_neg ht]
      by_cases hspace : t.kind = .space
      · rw [withoutLayout_space hspace, ih]
      · rw [withoutLayout_cons hspace, startsDocumented, if_neg ht, ih]

theorem map_outline_markFirst {bs cs : List DocBlock} (h : bs.map outline = cs.map outline) :
    (markFirst bs).map outline = (markFirst cs).map outline := by
  cases bs with
  | nil =>
    rw [List.map_eq_nil_iff.mp h.symm]
  | cons b bs =>
    obtain ⟨c, cs, rfl, hb, hbs⟩ := List.map_eq_cons_iff.mp h.symm
    obtain ⟨htext, hdeclaration, -⟩ : c.text = b.text ∧ c.declaration = b.declaration ∧
        c.isFirst = b.isFirst := by simpa [outline] using hb
    rw [markFirst, markFirst, List.map_cons, List.map_cons, hbs]
    simp only [outline, htext, hdeclaration]

/-- What the blocks of a file say, in their order; nothing if the file can not be read. -/
def outlines (blocks : Except Failure (List DocBlock)) : Option (List Outline) :=
  blocks.toOption.map (·.map outline)

/-- What a file says is told by its tokens; of a failure only the line depends on the layout. -/
theorem outlines_ofTokens (file : Path) (ts : List Token) :
    outlines (ofTokens lang file ts) =
      if startsDocumented lang ts then some ((markFirst (later lang ts)).map outline) else none := by
  cases hblocks : ofTokens lang file ts with
  | ok blocks =>
    obtain ⟨hstarts, rfl⟩ := ofTokens_eq_ok_iff.mp hblocks
    rw [if_pos hstarts]
    rfl
  | error e =>
    rw [if_neg]
    · rfl
    · intro hstarts
      cases hblocks.symm.trans (ofTokens_eq_ok_iff.mpr ⟨hstarts, rfl⟩)

/-- Layout does not matter to the tokens of a whole file. -/
theorem outlines_ofTokens_withoutLayout (file : Path) (ts : List Token) :
    outlines (ofTokens lang file (withoutLayout ts)) = outlines (ofTokens lang file ts) := by
  rw [outlines_ofTokens, outlines_ofTokens, startsDocumented_withoutLayout,
    map_outline_markFirst (later_withoutLayout lang ts)]

/-- Sources whose tokens agree in kind and text, but for space, are both refused or have the same
    blocks in the same order, each with the same text and declaration, and the same one first. -/
theorem scan_ignores_layout {src other : Text}
    (h : Token.pieces (lang.tokens src) = Token.pieces (lang.tokens other)) (file : Path) :
    outlines (scan lang file src) = outlines (scan lang file other) := by
  have hbare : withoutLayout (lang.tokens src) = withoutLayout (lang.tokens other) := by
    rw [withoutLayout, h, withoutLayout]
  rw [scan, scan, ← outlines_ofTokens_withoutLayout, hbare, outlines_ofTokens_withoutLayout]

/-- Two documented declarations with a note between them, on as few lines as possible. -/
def closeSource : Text :=
  "--- Adds.\n-- @param a x\nfunction add(a)end-- note\n--- B\nlocal b"

/-- The tokens of `closeSource`, far apart. -/
def wideSource : Text :=
  "\n\n --- Adds.\n\n\t-- @param a x\n\nfunction\n  add ( a )\n end\n\n-- note\n\n--- B\n local\t b\n"

theorem scan_ignores_layout_wide :
    Token.pieces (Lua.tokens closeSource) = Token.pieces (Lua.tokens wideSource) ∧
      outlines (scan .lua ⟨"m.lua"⟩ wideSource) = some
        [⟨"Adds.\n@param a x", some ⟨"add", .function ["a"], false⟩, true⟩,
          ⟨"B", some ⟨"b", .variable, true⟩, false⟩] := by
  have hpieces : Token.pieces (Lua.tokens closeSource) = Token.pieces (Lua.tokens wideSource) := by
    decide +kernel
  refine ⟨hpieces, ?_⟩
  rw [← scan_ignores_layout .lua hpieces ⟨"m.lua"⟩]
  decide +kernel

end DocBlock

end SourceDoc
