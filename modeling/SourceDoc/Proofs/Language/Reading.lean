import SourceDoc.Language.Basic
import SourceDoc.Proofs.Token.Written

namespace SourceDoc

open Declaration (Progress)

namespace Token

/-- A word as it stands in a text. -/
abbrev word (text : Text) : Piece :=
  (.word, text)

/-- An operator or a bracket as it stands in a text. -/
abbrev mark (text : Text) : Piece :=
  (.other, text)

/-- A token without its line. -/
def piece (t : Token) : Piece :=
  (t.kind, t.text)

/-- The tokens of code among tokens, without their lines. Only these count for a declaration, and of
    each only its kind and its text. -/
def code (ts : List Token) : List Piece :=
  (ts.filter isCode).map piece

theorem code_cons_of_isCode {t : Token} (ht : t.isCode = true) (ts : List Token) :
    code (t :: ts) = t.piece :: code ts := by
  rw [code, List.filter_cons_of_pos ht, List.map_cons, code]

/-- Whether a piece is neither space nor a comment. -/
def isCodePiece (p : Piece) : Bool :=
  p.1 != .space && p.1 != .comment

/-- On whatever lines pieces stand, their code is the same. -/
theorem code_placed (line : Nat) (pieces : List Piece) :
    code (placed line pieces) = pieces.filter isCodePiece := by
  induction pieces generalizing line with
  | nil => rfl
  | cons p pieces ih =>
    obtain ⟨kind, text⟩ := p
    rw [placed]
    cases hcode : isCodePiece (kind, text) with
    | true =>
      rw [code_cons_of_isCode (t := ⟨kind, text, line⟩) hcode, ih, List.filter_cons_of_pos hcode]
      rfl
    | false =>
      have hskip : isCode ⟨kind, text, line⟩ = false := hcode
      rw [code, List.filter_cons_of_neg (by simp [hskip]), ← code, ih,
        List.filter_cons_of_neg (by simp [hcode])]

/-- The number of tokens of code does not depend on lines, either; it is what the search for a
    declaration is limited by. -/
theorem length_filter_placed (line line' : Nat) (pieces : List Piece) :
    ((placed line pieces).filter isCode).length = ((placed line' pieces).filter isCode).length := by
  have hcode := (code_placed line pieces).trans (code_placed line' pieces).symm
  simpa [code] using congrArg List.length hcode

/-- Tests for a mark look at kind and text only. -/
theorem isOther_eq_decide (p : Piece) (line : Nat) (s : Text) :
    isOther ⟨p.1, p.2, line⟩ s = decide (p = mark s) := by
  obtain ⟨kind, text⟩ := p
  rw [Bool.eq_iff_iff]
  simp [isOther]

theorem isWord_eq_decide (p : Piece) (line : Nat) (s : Text) :
    isWord ⟨p.1, p.2, line⟩ s = decide (p = word s) := by
  obtain ⟨kind, text⟩ := p
  rw [Bool.eq_iff_iff]
  simp [isWord]

end Token

namespace Language

variable (lang : Language)

/-- The state of reading a declaration after all tokens of code among tokens. -/
def readAll (state : Progress) (ts : List Token) : Progress :=
  (ts.filter Token.isCode).foldl lang.step state

/-- Reads one token of a declaration that is given without its line. -/
def stepPiece (state : Progress) (p : Token.Piece) : Progress :=
  lang.step state ⟨p.1, p.2, 1⟩

/-- The state of reading a declaration after pieces of code. -/
def readPieces (state : Progress) (pieces : List Token.Piece) : Progress :=
  pieces.foldl lang.stepPiece state

/-- A step does not depend on the line of its token, so reading is a function of pieces. -/
theorem step_eq_stepPiece (state : Progress) (t : Token) :
    lang.step state t = lang.stepPiece state t.piece := by
  cases lang <;> cases state <;> rfl

/-- What is read from tokens is read from their code, whatever stands between it. -/
theorem readAll_eq_readPieces (state : Progress) (ts : List Token) :
    lang.readAll state ts = lang.readPieces state (Token.code ts) := by
  have hstep : lang.step = fun state t => lang.stepPiece state t.piece := by
    funext state t
    exact lang.step_eq_stepPiece state t
  rw [readAll, readPieces, Token.code, List.foldl_map, hstep]

@[simp] theorem readPieces_nil (state : Progress) : lang.readPieces state [] = state :=
  rfl

theorem readPieces_cons (state : Progress) (p : Token.Piece) (pieces : List Token.Piece) :
    lang.readPieces state (p :: pieces) = lang.readPieces (lang.stepPiece state p) pieces :=
  rfl

theorem readPieces_append (state : Progress) (pieces more : List Token.Piece) :
    lang.readPieces state (pieces ++ more) =
      lang.readPieces (lang.readPieces state pieces) more :=
  List.foldl_append

/-- Once reading is over, no token changes its result. -/
@[simp] theorem readPieces_done (declaration : Option Declaration) (pieces : List Token.Piece) :
    lang.readPieces (.done declaration) pieces = .done declaration := by
  induction pieces with
  | nil => rfl
  | cons p pieces ih =>
    rw [readPieces_cons]
    cases lang <;> exact ih

@[simp] theorem readAll_nil (state : Progress) : lang.readAll state [] = state :=
  rfl

theorem readAll_cons_of_isCode {state : Progress} {t : Token} {ts : List Token}
    (ht : t.isCode = true) :
    lang.readAll state (t :: ts) = lang.readAll (lang.step state t) ts := by
  rw [readAll, List.filter_cons_of_pos ht, List.foldl_cons, readAll]

theorem readAll_cons_of_not_isCode {state : Progress} {t : Token} {ts : List Token}
    (ht : t.isCode = false) : lang.readAll state (t :: ts) = lang.readAll state ts := by
  rw [readAll, List.filter_cons_of_neg (by simp [ht]), readAll]

/-- Also where space and comments stand between, reading goes on from where it was left. -/
theorem readAll_append (state : Progress) (ts us : List Token) :
    lang.readAll state (ts ++ us) = lang.readAll (lang.readAll state ts) us := by
  rw [readAll, List.filter_append, List.foldl_append, readAll, readAll]

/-- Reading that is not over after some tokens was not over before. -/
theorem isDone_readAll_before {ts us : List Token} {state : Progress} (hbefore : us <+: ts)
    (hts : (lang.readAll state ts).isDone = false) : (lang.readAll state us).isDone = false := by
  obtain ⟨more, rfl⟩ := hbefore
  rw [readAll_append] at hts
  cases hread : lang.readAll state us with
  | done declaration =>
    rw [hread, readAll_eq_readPieces, readPieces_done] at hts
    exact hts
  | awaiting isLocal => rfl
  | reading d => rfl

end Language

end SourceDoc
