import Mathlib.Data.List.Basic
import SourceDoc.Language.Lua.Lexer

namespace SourceDoc

namespace Token

/-- A token without its line. -/
abbrev Piece := Kind × Text

/-- Pieces one after the other, the first of them on the given line. -/
def placed (line : Nat) : List Piece → List Token
  | [] => []
  | (kind, text) :: pieces => ⟨kind, text, line⟩ :: placed (line + Text.newlines text) pieces

/-- The line on which pieces end that start on the given line. -/
def lineAfter (line : Nat) (pieces : List Piece) : Nat :=
  pieces.foldl (fun line piece => line + Text.newlines piece.2) line

theorem placed_append (line : Nat) (pieces more : List Piece) :
    placed line (pieces ++ more) = placed line pieces ++ placed (lineAfter line pieces) more := by
  induction pieces generalizing line with
  | nil => rfl
  | cons piece pieces ih =>
    obtain ⟨kind, text⟩ := piece
    rw [List.cons_append, placed, placed, ih]
    rfl

theorem mem_of_mem_placed {line : Nat} {pieces : List Piece} {t : Token}
    (h : t ∈ placed line pieces) : (t.kind, t.text) ∈ pieces := by
  induction pieces generalizing line with
  | nil => cases h
  | cons piece pieces ih =>
    obtain ⟨kind, text⟩ := piece
    rw [placed, List.mem_cons] at h
    rcases h with rfl | h
    · exact List.mem_cons_self
    · exact List.mem_cons_of_mem _ (ih h)

/-- Pieces end on the line that as many line feeds lead to as there are in them. -/
theorem lineAfter_eq (line : Nat) (pieces : List Piece) :
    lineAfter line pieces = line + Text.newlines (pieces.flatMap (·.2)) := by
  induction pieces generalizing line with
  | nil => rfl
  | cons piece pieces ih =>
    have hfeeds : Text.newlines ((piece :: pieces).flatMap (·.2)) =
        Text.newlines piece.2 + Text.newlines (pieces.flatMap (·.2)) := List.count_append
    rw [lineAfter, List.foldl_cons, ← lineAfter, ih, hfeeds, Nat.add_assoc]

end Token

namespace Lexeme

/-- A rule reads a text as the given pieces up to the rest that it leaves. Each piece is judged
    together with all of the text behind it, since a rule looks ahead. -/
inductive Reads (rule : Lexeme) : Text → List Token.Piece → Text → Prop where
  | done (rest : Text) : Reads rule rest [] rest
  | piece {kind : Token.Kind} {c : Char} {cs middle rest : Text} {pieces : List Token.Piece}
      (hrule : rule c (cs ++ middle) = (kind, cs.length)) (hmore : Reads rule middle pieces rest) :
      Reads rule (c :: (cs ++ middle)) ((kind, c :: cs) :: pieces) rest

variable {rule : Lexeme} {src middle rest : Text} {pieces more : List Token.Piece}

/-- What is read up to some text can be followed by what is read from there on. -/
theorem Reads.append (hfirst : Reads rule src pieces middle) (hlast : Reads rule middle more rest) :
    Reads rule src (pieces ++ more) rest := by
  induction hfirst with
  | done middle => exact hlast
  | piece hrule hmore ih => exact .piece hrule (ih hlast)

/-- The tokens of a text are the pieces it is read as, and then the tokens of the rest. -/
theorem Reads.tokens_eq (h : Reads rule src pieces rest) (line : Nat) :
    rule.tokens line src =
      Token.placed line pieces ++ rule.tokens (Token.lineAfter line pieces) rest := by
  induction h generalizing line with
  | done rest => rfl
  | piece hrule hmore ih =>
    rw [tokens, hrule]
    simp only [List.take_left, List.drop_left, Token.placed, List.cons_append, ih]
    rfl

/-- A run stops before a character of another class and nowhere earlier. -/
theorem run_append {isMember : Char → Bool} {cs rest : Text} (hcs : cs.all isMember = true)
    (hrest : ∀ c ∈ rest.head?, isMember c = false) : run isMember (cs ++ rest) = cs.length := by
  have hstop : rest.takeWhile isMember = [] := by
    cases rest with
    | nil => rfl
    | cons c rest => simp [hrest c rfl]
  rw [run, List.takeWhile_append_of_pos (List.all_eq_true.mp hcs), hstop, List.append_nil]

/-- Blanks are one token up to a character that is not blank, if the rule takes them together. -/
theorem reads_blanks {t : Text}
    (hspace : ∀ c cs, Text.isBlank c = true → rule c cs = (.space, run Text.isBlank cs))
    (ht : t.all Text.isBlank = true) (hne : t ≠ [])
    (hrest : ∀ c ∈ rest.head?, Text.isBlank c = false) :
    Reads rule (t ++ rest) [(.space, t)] rest := by
  obtain ⟨c, cs, rfl⟩ := List.exists_cons_of_ne_nil hne
  obtain ⟨hc, hcs⟩ := Bool.and_eq_true_iff.mp (List.all_cons ▸ ht)
  refine .piece ?_ (.done rest)
  rw [hspace c _ hc, run_append hcs hrest]

/-- The rest of a line goes up to a line feed or to the end of the text. -/
theorem restOfLine_append {t rest : Text} (ht : '\n' ∉ t) (hrest : ∀ c ∈ rest.head?, c = '\n') :
    restOfLine (t ++ rest) = t.length := by
  refine run_append (List.all_eq_true.mpr ?_) ?_
  · intro c hc
    have hfeed : c ≠ '\n' := by
      rintro rfl
      exact ht hc
    simpa using hfeed
  · intro c hc
    simp [hrest c hc]

end Lexeme

namespace Text

/-- Whether a text is an identifier. -/
def isIdent : Text → Bool
  | [] => false
  | c :: cs => isIdentStart c && cs.all isIdentChar

/-- Identifiers start with ASCII letters or an underscore. The bounds tell them from all other
    classes. -/
theorem toNat_of_isIdentStart {c : Char} (hc : isIdentStart c = true) :
    65 ≤ c.toNat ∧ c.toNat ≤ 122 ∧ c.toNat ≠ 91 := by
  simp only [isIdentStart, isAsciiLetter, Bool.or_eq_true, Bool.and_eq_true, decide_eq_true_eq,
    beq_iff_eq, Char.le_def, UInt32.le_iff_toNat_le] at hc
  unfold Char.toNat
  rcases hc with (hupper | hlower) | rfl
  · change 65 ≤ c.val.toNat ∧ c.val.toNat ≤ 90 at hupper
    omega
  · change 97 ≤ c.val.toNat ∧ c.val.toNat ≤ 122 at hlower
    omega
  · decide

theorem toNat_of_isIdentChar {c : Char} (hc : isIdentChar c = true) :
    48 ≤ c.toNat ∧ c.toNat ≤ 122 := by
  rw [isIdentChar, Bool.or_eq_true] at hc
  rcases hc with hstart | hdigit
  · have hbounds := toNat_of_isIdentStart hstart
    omega
  · simp only [isAsciiDigit, Bool.and_eq_true, decide_eq_true_eq, Char.le_def,
      UInt32.le_iff_toNat_le] at hdigit
    change 48 ≤ c.val.toNat ∧ c.val.toNat ≤ 57 at hdigit
    unfold Char.toNat
    omega

theorem isBlank_of_isIdentChar {c : Char} (hc : isIdentChar c = true) : isBlank c = false := by
  have hbounds := toNat_of_isIdentChar hc
  simp only [isBlank, Bool.or_eq_false_iff, Bool.and_eq_false_iff, decide_eq_false_iff_not,
    beq_eq_false_iff_ne]
  omega

theorem isBlank_head_of_isIdent {t u : Text} (ht : isIdent t = true) (hstart : t <+: u) :
    ∀ c ∈ u.head?, isBlank c = false := by
  obtain ⟨rest, rfl⟩ := hstart
  cases t with
  | nil => cases ht
  | cons d ds =>
    intro c hc
    cases hc
    have hd : isIdentStart d = true := (Bool.and_eq_true_iff.mp ht).1
    exact isBlank_of_isIdentChar (by rw [isIdentChar, hd, Bool.true_or])

theorem isIdentChar_of_mem {t : Text} (ht : isIdent t = true) {c : Char} (hc : c ∈ t) :
    isIdentChar c = true := by
  cases t with
  | nil => cases hc
  | cons d ds =>
    obtain ⟨hd, hds⟩ := Bool.and_eq_true_iff.mp ht
    rcases List.mem_cons.mp hc with rfl | hc
    · rw [isIdentChar, hd, Bool.true_or]
    · exact List.all_eq_true.mp hds c hc

end Text

namespace Lua

open Lexeme (Reads)

variable {rest : Text}

theorem bracketLevel?_of_ne {c : Char} (hc : c ≠ '[') (cs : Text) :
    bracketLevel? (c :: cs) = none := by
  unfold bracketLevel?
  split
  · rename_i heq
    exact absurd (List.cons_eq_cons.mp heq).1 hc
  · rfl

/-- Blanks are one token up to a character that is not blank. -/
theorem reads_blanks {t : Text} (ht : t.all Text.isBlank = true) (hne : t ≠ [])
    (hrest : ∀ c ∈ rest.head?, Text.isBlank c = false) :
    Reads lexeme (t ++ rest) [(.space, t)] rest :=
  Lexeme.reads_blanks (fun c cs hc => by rw [lexeme, if_pos hc]) ht hne hrest

/-- An identifier is one token up to a character that can not continue it. -/
theorem reads_word {t : Text} (ht : Text.isIdent t = true)
    (hrest : ∀ c ∈ rest.head?, Text.isIdentChar c = false) :
    Reads lexeme (t ++ rest) [(.word, t)] rest := by
  cases t with
  | nil => cases ht
  | cons c cs =>
    obtain ⟨hc, hcs⟩ := Bool.and_eq_true_iff.mp ht
    have hbounds := Text.toNat_of_isIdentStart hc
    have hblank : Text.isBlank c = false :=
      Text.isBlank_head_of_isIdent ht List.prefix_rfl c rfl
    have hdash : c ≠ '-' := by
      rintro rfl
      exact absurd hbounds (by decide)
    have hbracket : c ≠ '[' := by
      rintro rfl
      exact absurd hbounds (by decide)
    have hquote : Lexeme.isQuote c = false := by
      rw [Bool.eq_false_iff]
      intro hquote
      rcases Bool.or_eq_true_iff.mp hquote with h | h
      · rw [beq_iff_eq.mp h] at hbounds
        exact absurd hbounds (by decide)
      · rw [beq_iff_eq.mp h] at hbounds
        exact absurd hbounds (by decide)
    refine .piece ?_ (.done rest)
    simp [lexeme, Lexeme.code, hblank, hdash, bracketLevel?_of_ne hbracket, hquote, hc,
      Lexeme.run_append hcs hrest]

/-- A line comment ends with its line. -/
theorem reads_comment {t : Text} (ht : '\n' ∉ t) (hhead : t.head? ≠ some '[')
    (hrest : ∀ c ∈ rest.head?, c = '\n') :
    Reads lexeme ('-' :: '-' :: t ++ rest) [(.comment, '-' :: '-' :: t)] rest := by
  have hlevel : bracketLevel? (t ++ rest) = none := by
    cases t with
    | nil =>
      cases rest with
      | nil => rfl
      | cons c rest => exact bracketLevel?_of_ne (by rw [hrest c rfl]; decide) rest
    | cons c cs => exact bracketLevel?_of_ne (by simpa using hhead) _
  have hline := Lexeme.restOfLine_append ht hrest
  have hdash : Text.isBlank '-' = false := by decide
  change Reads lexeme ('-' :: ('-' :: t ++ rest)) _ _
  refine .piece ?_ (.done _)
  simp [lexeme, hdash, comment, hlevel, hline, Nat.add_comm]

/-- A character that starts no other token is an operator, or the start of one. -/
theorem lexeme_mark {c : Char} (hc : Text.isBlank c = false ∧ c ≠ '-' ∧ c ≠ '[' ∧
      Lexeme.isQuote c = false ∧ Text.isIdentStart c = false ∧ Text.isAsciiDigit c = false)
    (cs : Text) : lexeme c cs = (.other, Lexeme.operator operators c cs) := by
  obtain ⟨hblank, hdash, hbracket, hquote, hstart, hdigit⟩ := hc
  simp [lexeme, Lexeme.code, hblank, hdash, bracketLevel?_of_ne hbracket, hquote, hstart, hdigit]

/-- A character that starts no other token and no longer operator is a token on its own. -/
theorem reads_mark {c : Char} (hc : c = '(' ∨ c = ')' ∨ c = ',' ∨ c = '.' ∨ c = ':')
    (hrest : operators.find? (·.isPrefixOf (c :: rest)) = none) :
    Reads lexeme (c :: rest) [(.other, [c])] rest := by
  have hclasses : Text.isBlank c = false ∧ c ≠ '-' ∧ c ≠ '[' ∧ Lexeme.isQuote c = false ∧
      Text.isIdentStart c = false ∧ Text.isAsciiDigit c = false := by
    rcases hc with rfl | rfl | rfl | rfl | rfl <;> decide
  change Reads lexeme (c :: ([] ++ rest)) _ _
  refine .piece ?_ (.done rest)
  simp [lexeme_mark hclasses, Lexeme.operator, hrest]

/-- Brackets and commas are tokens on their own, whatever follows, for no operator starts with one
    of them. -/
theorem reads_bracket {c : Char} (hc : c = '(' ∨ c = ')' ∨ c = ',') :
    Reads lexeme (c :: rest) [(.other, [c])] rest := by
  rcases hc with rfl | rfl | rfl <;> exact reads_mark (by simp) rfl

/-- No operator goes on from a separator to an identifier. -/
theorem reads_separator {c : Char} (hc : c = '.' ∨ c = ':') {t : Text}
    (ht : Text.isIdent t = true) : Reads lexeme (c :: (t ++ rest)) [(.other, [c])] (t ++ rest) := by
  cases t with
  | nil => cases ht
  | cons d ds =>
    have hbounds := Text.toNat_of_isIdentStart (Bool.and_eq_true_iff.mp ht).1
    have hdot : d ≠ '.' := by
      rintro rfl
      exact absurd hbounds (by decide)
    have hcolon : d ≠ ':' := by
      rintro rfl
      exact absurd hbounds (by decide)
    refine reads_mark (by rcases hc with rfl | rfl <;> simp) ?_
    rcases hc with rfl | rfl <;> simp [operators, hdot.symm, hcolon.symm]

end Lua

end SourceDoc
