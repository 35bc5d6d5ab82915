import SourceDoc.Proofs.Token.Boundary
import SourceDoc.Proofs.Token.LineEnds

namespace SourceDoc

open Lexeme (Reads)

/-- A part of what stands between the quotes of a literal: a character, or a backslash with the
    character behind it. -/
inductive LiteralPart where
  | plain (c : Char)
  /-- A backslash and the character it takes along. -/
  | escape (c : Char)
  deriving DecidableEq

namespace LiteralPart

/-- A part as it is written. -/
def text : LiteralPart → Text
  | plain c => [c]
  | escape c => ['\\', c]

/-- Whether a part can stand between the given quotes. Only an escape brings in the quote, a
    backslash or a line feed. -/
def Fits (quote : Char) : LiteralPart → Prop
  | plain c => c ≠ quote ∧ c ≠ '\\' ∧ c ≠ '\n'
  | escape _ => True

/-- Decided part by part, so that a concrete literal can be checked. -/
instance (quote : Char) : DecidablePred (Fits quote)
  | plain c => inferInstanceAs (Decidable (c ≠ quote ∧ c ≠ '\\' ∧ c ≠ '\n'))
  | escape _ => inferInstanceAs (Decidable True)

/-- The escape by which a literal goes on on the next line. -/
abbrev lineBreak : LiteralPart :=
  escape '\n'

/-- Parts one after the other. -/
def spelled (parts : List LiteralPart) : Text :=
  parts.flatMap text

end LiteralPart

open LiteralPart (Fits lineBreak spelled)

/-- A literal with the given parts between its quotes. -/
def quotedLiteral (quote : Char) (parts : List LiteralPart) : Text :=
  quote :: (spelled parts ++ [quote])

namespace Lexeme

variable {quote : Char} {parts : List LiteralPart}

/-- Parts without line breaks are taken whole. -/
theorem quoted_spelled (hquote : isQuote quote = true) (hparts : ∀ part ∈ parts, part.Fits quote)
    (hbreak : lineBreak ∉ parts) (rest : Text) :
    quoted quote (spelled parts ++ rest) = (spelled parts).length + quoted quote rest := by
  have hslash : '\\' ≠ quote := ne_of_isQuote hquote (by decide)
  induction parts with
  | nil => rw [spelled, List.flatMap_nil, List.nil_append, List.length_nil, Nat.zero_add]
  | cons part parts ih =>
    obtain ⟨hpart, hparts⟩ := List.forall_mem_cons.mp hparts
    obtain ⟨hfirst, hbreak⟩ : lineBreak ≠ part ∧ lineBreak ∉ parts := by simpa using hbreak
    have hrest := ih hparts hbreak
    cases part with
    | plain c =>
      obtain ⟨hc, hescape, hfeed⟩ := hpart
      change quoted quote (c :: (spelled parts ++ rest)) = (c :: spelled parts).length + _
      rw [quoted_cons hescape, if_neg hc, if_neg hfeed, hrest, List.length_cons]
      omega
    | escape c =>
      have hfeed : c ≠ '\n' := by
        rintro rfl
        exact hfirst rfl
      change quoted quote ('\\' :: c :: (spelled parts ++ rest)) =
        ('\\' :: c :: spelled parts).length + _
      rw [quoted_escape hslash hfeed, hrest, List.length_cons, List.length_cons]
      omega

end Lexeme

namespace Language

variable (lang : Language) {quote : Char} {parts : List LiteralPart}

/-- In both languages a quote starts a literal and nothing else, and both find its end by the same
    rule. -/
theorem lexeme_quote (hquote : Lexeme.isQuote quote = true) (cs : Text) :
    lang.lexeme quote cs = (.str, Lexeme.quoted quote cs) := by
  have hclasses : Text.isBlank quote = false ∧ quote ≠ '-' ∧ quote ≠ '[' ∧ quote ≠ '/' ∧
      quote ≠ '#' := by
    rcases Bool.or_eq_true_iff.mp hquote with h | h <;> rw [beq_iff_eq.mp h] <;> decide
  obtain ⟨hblank, hdash, hbracket, hslash, hsign⟩ := hclasses
  cases lang with
  | lua => simp [lexeme, Lua.lexeme, Lexeme.code, hblank, hdash, Lua.bracketLevel?_of_ne hbracket, hquote]
  | c => simp [lexeme, C.lexeme, Lexeme.code, hblank, hslash, hsign, hquote]

/-- Outside a literal a backslash is a token on its own. -/
theorem lexeme_backslash (cs : Text) : lang.lexeme '\\' cs = (.other, 0) := by
  cases lang with
  | lua =>
    rw [lexeme, Lua.lexeme_mark (by decide)]
    simp [Lexeme.operator, Lua.operators]
  | c =>
    have hclasses : Text.isBlank '\\' = false ∧ Lexeme.isQuote '\\' = false ∧
        Text.isIdentStart '\\' = false ∧ Text.isAsciiDigit '\\' = false := by decide
    obtain ⟨hblank, hquote, hstart, hdigit⟩ := hclasses
    simp [lexeme, C.lexeme, Lexeme.code, hblank, hquote, hstart, hdigit, Lexeme.operator, C.operators]

/-- A literal without line breaks is one token, whatever follows it. -/
theorem reads_quotedLiteral (hquote : Lexeme.isQuote quote = true)
    (hparts : ∀ part ∈ parts, part.Fits quote) (hbreak : lineBreak ∉ parts) (rest : Text) :
    Reads lang.lexeme (quotedLiteral quote parts ++ rest) [(.str, quotedLiteral quote parts)]
      rest := by
  have hslash : quote ≠ '\\' := (Lexeme.ne_of_isQuote hquote (by decide)).symm
  change Reads lang.lexeme (quote :: (spelled parts ++ [quote] ++ rest)) _ _
  refine .piece ?_ (.done rest)
  rw [lexeme_quote lang hquote, List.append_assoc, Lexeme.quoted_spelled hquote hparts hbreak,
    List.singleton_append, Lexeme.quoted_cons hslash, if_pos rfl, List.length_append,
    List.length_singleton]

/-- A literal is cut before its first line break, whatever it goes on with. -/
theorem reads_lineBreak (hquote : Lexeme.isQuote quote = true)
    (hparts : ∀ part ∈ parts, part.Fits quote) (hbreak : lineBreak ∉ parts) (rest : Text) :
    Reads lang.lexeme (quote :: (spelled parts ++ (lineBreak.text ++ rest)))
      [(.str, quote :: spelled parts), (.other, "\\")] ('\n' :: rest) := by
  have hslash : '\\' ≠ quote := Lexeme.ne_of_isQuote hquote (by decide)
  have hbroken : Lexeme.quoted quote ('\\' :: '\n' :: rest) = 0 := by simp [Lexeme.quoted, hslash]
  refine .piece ?_ ?_
  · rw [lexeme_quote lang hquote, Lexeme.quoted_spelled hquote hparts hbreak]
    change (Token.Kind.str, _ + Lexeme.quoted quote ('\\' :: '\n' :: rest)) = _
    rw [hbroken, Nat.add_zero]
  · change Reads lang.lexeme ('\\' :: ([] ++ '\n' :: rest)) [(.other, '\\' :: [])] _
    exact .piece (lexeme_backslash lang _) (.done _)

/-- A quoted literal is one token wherever a token starts with it, if no escape in it takes a line
    feed along. Otherwise the token has the parts before the first such escape and no closing quote,
    and the backslash behind it is a token of its own, so that what follows is read as code. -/
theorem quotedLiteral_is_one_token (hquote : Lexeme.isQuote quote = true)
    (hparts : ∀ part ∈ parts, part.Fits quote) :
    (lineBreak ∉ parts → lang.ReadsAs .str (quotedLiteral quote parts)) ∧
    ∀ start others, parts = start ++ lineBreak :: others → lineBreak ∉ start →
      ∀ src before after rest, lang.tokens src = before ++ after →
        after.flatMap (·.text) = quotedLiteral quote parts ++ rest →
        ∃ line next more,
          after = ⟨.str, quote :: spelled start, line⟩ :: ⟨.other, "\\", next⟩ :: more := by
  have hsign : quote ≠ '#' := (Lexeme.ne_of_isQuote hquote (by decide)).symm
  constructor
  · intro hbreak
    exact readsAs_of_reads hsign (lang.reads_quotedLiteral hquote hparts hbreak)
  · rintro start others rfl hbreak src before after rest htokens htext
    have hstart : ∀ part ∈ start, part.Fits quote :=
      fun part hpart => hparts part (List.mem_append_left _ hpart)
    have hsplit : quotedLiteral quote (start ++ lineBreak :: others) ++ rest =
        quote :: (spelled start ++ (lineBreak.text ++ (spelled others ++ [quote] ++ rest))) := by
      simp [quotedLiteral, spelled]
    rw [hsplit] at htext
    obtain ⟨line, more, hafter⟩ := eq_placed_of_reads (by simpa using hsign)
      (lang.reads_lineBreak hquote hstart hbreak _) htokens htext
    exact ⟨line, _, more, hafter⟩

/-- Comment markers, the other quote, a hidden quote and a hidden backslash, each before a literal's
    end. -/
def trickyParts : List LiteralPart :=
  [.plain '-', .plain '-', .plain '/', .plain '*', .plain '\'', .escape '"', .escape '\\']

theorem quotedLiteral_is_one_token_tricky :
    (Lexeme.isQuote '"' = true ∧ ∀ part ∈ trickyParts ++ lineBreak :: trickyParts, part.Fits '"') ∧
    (∃ line more, (lua.tokens "x=\"--/*'\\\"\\\\\"--").drop 2 =
      ⟨.str, "\"--/*'\\\"\\\\\"", line⟩ :: more) ∧
    ∃ line next more, (c.tokens "x=\"--/*'\\\"\\\\\\\n--/*'\\\"\\\\\"").drop 2 =
      ⟨.str, "\"--/*'\\\"\\\\", line⟩ :: ⟨.other, "\\", next⟩ :: more := by
  have hquote : Lexeme.isQuote '"' = true := by decide
  have hbroken : ∀ part ∈ trickyParts ++ lineBreak :: trickyParts, part.Fits '"' := by decide
  have hparts : ∀ part ∈ trickyParts, part.Fits '"' :=
    fun part hpart => hbroken part (List.mem_append_left _ hpart)
  refine ⟨⟨hquote, hbroken⟩, ?_, ?_⟩
  · exact (quotedLiteral_is_one_token lua hquote hparts).1 (by decide) _ _ _ "--"
      (List.take_append_drop 2 _).symm (by decide +kernel)
  · exact (quotedLiteral_is_one_token c hquote hbroken).2 trickyParts trickyParts rfl (by decide) _ _ _
      [] (List.take_append_drop 2 _).symm (by decide +kernel)

/-- A literal that goes on on the next line, with a comment marker there. -/
def brokenParts : List LiteralPart :=
  [.plain 'a', lineBreak, .plain '-', .plain '-', .plain '-', .plain 'b']

/-- The line behind the line break is read as a doc comment. -/
theorem quotedLiteral_lineBreak_cut :
    (Lexeme.isQuote '"' = true ∧ ∀ part ∈ brokenParts, part.Fits '"') ∧
      lua.tokens (quotedLiteral '"' brokenParts) =
        [⟨.str, "\"a", 1⟩, ⟨.other, "\\", 1⟩, ⟨.space, "\n", 1⟩, ⟨.comment, "---b\"", 2⟩] := by
  decide +kernel

end Language

end SourceDoc
