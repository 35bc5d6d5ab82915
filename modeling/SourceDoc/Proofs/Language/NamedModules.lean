import SourceDoc.Proofs.Language.ModuleCalls
import SourceDoc.Proofs.Text.Words
import SourceDoc.Proofs.Token.Alike
import SourceDoc.Proofs.Token.Literals

namespace SourceDoc

open LiteralPart (lineBreak spelled)

namespace LiteralPart

/-- Parts that the lexer takes together behind a quote. The closing quote may be there or not; which
    of the two holds is told afterwards by the first and the last character alone, without regard to
    escapes. -/
structure Inside (quote : Char) (parts : List LiteralPart) : Prop where
  isQuote : Lexeme.isQuote quote = true
  fits : ∀ part ∈ parts, part.Fits quote
  unbroken : lineBreak ∉ parts

/-- Parts that end with an escaped quote and blanks behind it. -/
def hiddenEnd (start : List LiteralPart) (quote : Char) (blanks : Text) : List LiteralPart :=
  start ++ escape quote :: blanks.map plain

variable {quote : Char} {parts : List LiteralPart} {part : LiteralPart}

theorem Inside.nil (hquote : Lexeme.isQuote quote = true) : Inside quote [] :=
  ⟨hquote, by simp, by simp⟩

theorem Inside.cons (h : Inside quote parts) (hpart : part.Fits quote) (hbreak : part ≠ lineBreak) :
    Inside quote (part :: parts) where
  isQuote := h.isQuote
  fits := List.forall_mem_cons.mpr ⟨hpart, h.fits⟩
  unbroken := by simpa [Ne.symm hbreak] using h.unbroken

theorem Inside.tail (h : Inside quote (part :: parts)) : Inside quote parts where
  isQuote := h.isQuote
  fits := (List.forall_mem_cons.mp h.fits).2
  unbroken := fun hbreak => h.unbroken (List.mem_cons_of_mem part hbreak)

end LiteralPart

open LiteralPart (Inside hiddenEnd)

/-- A literal with its closing quote, and the text between its quotes. -/
def IsClosed (literal content : Text) : Prop :=
  ∃ quote parts, Inside quote parts ∧ literal = quotedLiteral quote parts ∧ content = spelled parts

/-- A literal without a closing quote that has an escaped quote at its end, but for blanks, and the
    text between the two quotes, which ends with the backslash. -/
def SeemsClosed (literal content : Text) : Prop :=
  ∃ quote start blanks, Inside quote (hiddenEnd start quote blanks) ∧
    (∀ b ∈ blanks, Text.isBlank b = true) ∧
    literal = quote :: spelled (hiddenEnd start quote blanks) ∧ content = spelled start ++ ['\\']

namespace Lexeme

variable {quote : Char}

/-- Every token of a text is what the rule says of some place. -/
theorem exists_rule_of_mem_tokens {rule : Lexeme} {line : Nat} {src : Text} {t : Token}
    (h : t ∈ rule.tokens line src) :
    ∃ c cs, t.kind = (rule c cs).1 ∧ t.text = c :: cs.take (rule c cs).2 := by
  fun_induction tokens rule line src with
  | case1 line => cases h
  | case2 line c cs kind more hrule text ih =>
    rcases List.mem_cons.mp h with rfl | h
    · exact ⟨c, cs, by rw [hrule], by rw [hrule]⟩
    · exact ih h

/-- What is taken behind a quote are parts, with the closing quote or without it. -/
theorem exists_parts_of_quoted (hquote : isQuote quote = true) (cs : Text) :
    ∃ parts, Inside quote parts ∧
      (cs.take (quoted quote cs) = spelled parts ++ [quote] ∨
        cs.take (quoted quote cs) = spelled parts) := by
  have hslash : '\\' ≠ quote := ne_of_isQuote hquote (by decide)
  have hopen : ∃ parts, Inside quote parts ∧
      (([] : Text) = spelled parts ++ [quote] ∨ ([] : Text) = spelled parts) :=
    ⟨[], .nil hquote, .inr rfl⟩
  have hclosed : ∃ parts, Inside quote parts ∧
      ([quote] = spelled parts ++ [quote] ∨ [quote] = spelled parts) :=
    ⟨[], .nil hquote, .inl rfl⟩
  -- an escape takes two characters, so the induction is that of the reader
  fun_induction quoted quote cs with
  | case1 => exact hopen
  | case2 => exact hclosed
  | case3 c hc hends => exact hopen
  | case4 c hc hends =>
    obtain ⟨hescape, hfeed⟩ : c ≠ '\\' ∧ c ≠ '\n' := by simpa using hends
    exact ⟨[.plain c], (Inside.nil hquote).cons ⟨hc, hescape, hfeed⟩ (by simp), .inr rfl⟩
  | case5 d cs => exact hclosed
  | case6 cs => exact hopen
  | case7 d cs hfeed _ ih =>
    obtain ⟨parts, hparts, htaken⟩ := ih
    refine ⟨.escape d :: parts, hparts.cons trivial (by simpa using hfeed), ?_⟩
    exact htaken.imp (congrArg fun t => '\\' :: d :: t) (congrArg fun t => '\\' :: d :: t)
  | case8 d cs hc => exact hopen
  | case9 c d cs hc hescape hfeed ih =>
    obtain ⟨parts, hparts, htaken⟩ := ih
    refine ⟨.plain c :: parts, hparts.cons ⟨hc, hescape, hfeed⟩ (by simp), ?_⟩
    exact htaken.imp (congrArg (c :: ·)) (congrArg (c :: ·))

end Lexeme

section Content

variable {quote : Char} {parts start : List LiteralPart} {literal content name blanks : Text}

theorem isBlank_of_isQuote (hquote : Lexeme.isQuote quote = true) : Text.isBlank quote = false := by
  rcases Bool.or_eq_true_iff.mp hquote with h | h <;> rw [beq_iff_eq.mp h] <;> decide

/-- The content of a literal is told by what is left when the blanks at its end are dropped. -/
theorem unquote?_cons (hquote : Lexeme.isQuote quote = true) (cs : Text) :
    unquote? (quote :: cs) =
      if (Text.trimEnd cs).getLast? = some quote then some (Text.trimEnd cs).dropLast else none := by
  have hblank := isBlank_of_isQuote hquote
  have hstart : Text.trimStart (quote :: cs) = quote :: cs :=
    Text.trimStart_eq_self_iff.mpr (by simpa using hblank)
  rw [unquote?, Text.trim, hstart, Text.trimEnd_cons, if_neg (by simp [hblank])]
  simp [hquote]

/-- A closed literal is read as what stands between its quotes, escapes as they are written. -/
theorem unquote?_quotedLiteral (hquote : Lexeme.isQuote quote = true) :
    unquote? (quotedLiteral quote parts) = some (spelled parts) := by
  have htrimmed : Text.trimEnd (spelled parts ++ [quote]) = spelled parts ++ [quote] :=
    Text.trimEnd_eq_self_iff.mpr (by simpa using isBlank_of_isQuote hquote)
  rw [quotedLiteral, unquote?_cons hquote, htrimmed]
  simp

theorem spelled_hiddenEnd (start : List LiteralPart) (quote : Char) (blanks : Text) :
    spelled (hiddenEnd start quote blanks) = spelled start ++ ['\\', quote] ++ blanks := by
  have hplain : (blanks.map LiteralPart.plain).flatMap LiteralPart.text = blanks := by
    rw [List.flatMap_map]
    exact List.flatMap_singleton' blanks
  rw [hiddenEnd, spelled, spelled, List.flatMap_append, List.flatMap_cons, hplain, LiteralPart.text,
    List.append_assoc]

theorem trimEnd_hiddenEnd (hquote : Lexeme.isQuote quote = true)
    (hblanks : ∀ b ∈ blanks, Text.isBlank b = true) :
    Text.trimEnd (spelled (hiddenEnd start quote blanks)) = spelled start ++ ['\\', quote] := by
  rw [spelled_hiddenEnd, Text.trimEnd_append_blank _ (List.all_eq_true.mpr hblanks)]
  exact Text.trimEnd_eq_self_iff.mpr (by simpa using isBlank_of_isQuote hquote)

/-- Among parts between quotes, one that brings in the quote is an escape of it. -/
theorem exists_hiddenEnd (h : Inside quote parts)
    (hlast : (Text.trimEnd (spelled parts)).getLast? = some quote) :
    ∃ start blanks, parts = hiddenEnd start quote blanks ∧
      ∀ b ∈ blanks, Text.isBlank b = true := by
  have hslash : '\\' ≠ quote := Lexeme.ne_of_isQuote h.isQuote (by decide)
  -- the last part decides, unless it is a blank that stands for itself
  induction parts using List.reverseRecOn with
  | nil => cases hlast
  | append_singleton parts part ih =>
    have hbefore : Inside quote parts :=
      ⟨h.isQuote, fun p hp => h.fits p (List.mem_append_left _ hp),
        fun hp => h.unbroken (List.mem_append_left _ hp)⟩
    have hspelled : spelled (parts ++ [part]) = spelled parts ++ part.text := by simp [spelled]
    rw [hspelled] at hlast
    cases part with
    | plain c =>
      cases hc : Text.isBlank c with
      | true =>
        rw [LiteralPart.text, Text.trimEnd_append_blank _ (by simp [hc])] at hlast
        obtain ⟨start, blanks, rfl, hblanks⟩ := ih hbefore hlast
        refine ⟨start, blanks ++ [c], by simp [hiddenEnd], ?_⟩
        intro b hb
        rcases List.mem_append.mp hb with hb | hb
        · exact hblanks b hb
        · exact List.mem_singleton.mp hb ▸ hc
      | false =>
        rw [LiteralPart.text, Text.trimEnd_eq_self_iff.mpr (by simpa using hc)] at hlast
        obtain ⟨hfits, -⟩ : c ≠ quote ∧ _ := h.fits (.plain c) (by simp)
        exact absurd (by simpa using hlast) hfits
    | escape c =>
      cases hc : Text.isBlank c with
      | true =>
        have hsplit : spelled parts ++ ['\\', c] = spelled parts ++ ['\\'] ++ [c] := by simp
        rw [LiteralPart.text, hsplit, Text.trimEnd_append_blank _ (by simp [hc]),
          Text.trimEnd_eq_self_iff.mpr (by simp; decide)] at hlast
        exact absurd (by simpa using hlast) hslash
      | false =>
        rw [LiteralPart.text, Text.trimEnd_eq_self_iff.mpr (by simpa using hc)] at hlast
        obtain rfl : c = quote := by simpa using hlast
        exact ⟨parts, [], rfl, by simp⟩

/-- What a literal that the lexer takes is read as. -/
theorem unquote?_eq_some_iff (h : literal.head? = some '[' ∨ ∃ quote parts, Inside quote parts ∧
      (literal = quotedLiteral quote parts ∨ literal = quote :: spelled parts)) :
    unquote? literal = some content ↔ IsClosed literal content ∨ SeemsClosed literal content := by
  constructor
  · intro hcontent
    rcases h with hbracket | ⟨quote, parts, hinside, rfl | rfl⟩
    · obtain ⟨rest, rfl⟩ := List.head?_eq_some_iff.mp hbracket
      rw [unquote?_cons_eq_none (by decide) (by decide)] at hcontent
      cases hcontent
    · rw [unquote?_quotedLiteral hinside.isQuote] at hcontent
      exact .inl ⟨quote, parts, hinside, rfl, (Option.some.inj hcontent).symm⟩
    · rw [unquote?_cons hinside.isQuote] at hcontent
      split at hcontent
      · rename_i hlast
        obtain ⟨start, blanks, rfl, hblanks⟩ := exists_hiddenEnd hinside hlast
        rw [trimEnd_hiddenEnd hinside.isQuote hblanks] at hcontent
        refine .inr ⟨quote, start, blanks, hinside, hblanks, rfl, ?_⟩
        simpa using (Option.some.inj hcontent).symm
      · cases hcontent
  · rintro (⟨quote, parts, hinside, rfl, rfl⟩ | ⟨quote, start, blanks, hinside, hblanks, rfl, rfl⟩)
    · exact unquote?_quotedLiteral hinside.isQuote
    · rw [unquote?_cons hinside.isQuote, trimEnd_hiddenEnd hinside.isQuote hblanks]
      simp

/-- Parts between quotes are told by their text, and a closing quote behind them is none of them. -/
theorem spelled_append_quote_ne {others : List LiteralPart} (h : Inside quote parts)
    (hothers : Inside quote others) : spelled parts ++ [quote] ≠ spelled others := by
  have hslash : '\\' ≠ quote := Lexeme.ne_of_isQuote h.isQuote (by decide)
  intro heq
  induction parts generalizing others with
  | nil =>
    cases others with
    | nil => cases heq
    | cons other others =>
      have hother := hothers.fits other List.mem_cons_self
      cases other with
      | plain d => exact hother.1 (List.cons_eq_cons.mp heq).1.symm
      | escape d => exact hslash (List.cons_eq_cons.mp heq).1.symm
  | cons part parts ih =>
    cases others with
    | nil => cases part <;> cases heq
    | cons other others =>
      have hpart := h.fits part List.mem_cons_self
      have hother := hothers.fits other List.mem_cons_self
      cases part with
      | plain c =>
        obtain ⟨-, hescape, -⟩ := hpart
        cases other with
        | plain d => exact ih h.tail hothers.tail (List.cons_eq_cons.mp heq).2
        | escape d => exact hescape (List.cons_eq_cons.mp heq).1
      | escape c =>
        cases other with
        | plain d => exact hother.2.1 (List.cons_eq_cons.mp heq).1.symm
        | escape d =>
          exact ih h.tail hothers.tail (List.cons_eq_cons.mp (List.cons_eq_cons.mp heq).2).2

theorem SeemsClosed.ne_nil (h : SeemsClosed literal content) : content ≠ [] := by
  obtain ⟨quote, start, blanks, -, -, -, rfl⟩ := h
  simp

/-- A literal that only seems closed is not closed. -/
theorem SeemsClosed.not_isClosed (h : SeemsClosed literal content) : ¬IsClosed literal name := by
  obtain ⟨quote, start, blanks, hinside, -, rfl, -⟩ := h
  rintro ⟨closing, parts, hparts, hliteral, -⟩
  obtain ⟨rfl, hrest⟩ := List.cons_eq_cons.mp hliteral
  exact spelled_append_quote_ne hparts hinside hrest.symm

end Content

/-- Whether a token is a literal that names a module: it is closed or seems so, and is not empty. -/
def Token.Names (t : Token) (name : Text) : Prop :=
  t.kind = .str ∧ (IsClosed t.text name ∧ name ≠ [] ∨ SeemsClosed t.text name)

namespace Lua

variable {src : Text} {t : Token} {ts : List Token} {name : Text}

/-- No other token than a quoted literal or a long bracket is a literal. -/
theorem kind_lexeme_ne_str {c : Char} {cs : Text} (hquote : Lexeme.isQuote c = false)
    (hlevel : bracketLevel? (c :: cs) = none) : (lexeme c cs).1 ≠ .str := by
  unfold lexeme
  rw [hlevel]
  simp only [Lexeme.code, hquote, Bool.false_eq_true, if_false]
  split
  · simp
  · split
    · simp
    · split
      · simp
      · split <;> simp

/-- A literal token is a long bracket, or parts behind a quote, with a closing quote or without. -/
theorem literal_of_mem_tokens (h : t ∈ tokens src) (hkind : t.kind = .str) :
    t.text.head? = some '[' ∨ ∃ quote parts, Inside quote parts ∧
      (t.text = quotedLiteral quote parts ∨ t.text = quote :: spelled parts) := by
  have hrule : ∃ c cs, t.kind = (lexeme c cs).1 ∧ t.text = c :: cs.take (lexeme c cs).2 := by
    unfold tokens at h
    split at h
    · rcases List.mem_cons.mp h with rfl | h
      · cases hkind
      · exact Lexeme.exists_rule_of_mem_tokens h
    · exact Lexeme.exists_rule_of_mem_tokens h
  obtain ⟨c, cs, hc, htext⟩ := hrule
  rw [htext, List.head?_cons]
  cases hquote : Lexeme.isQuote c with
  | true =>
    have hlexeme : lexeme c cs = (.str, Lexeme.quoted c cs) := Language.lua.lexeme_quote hquote cs
    obtain ⟨parts, hparts, htaken⟩ := Lexeme.exists_parts_of_quoted hquote cs
    rw [hlexeme]
    exact .inr ⟨c, parts, hparts, htaken.imp (congrArg (c :: ·)) (congrArg (c :: ·))⟩
  | false =>
    by_cases hbracket : c = '['
    · exact .inl (congrArg some hbracket)
    · exact absurd (hc.symm.trans hkind) (kind_lexeme_ne_str hquote (bracketLevel?_of_ne hbracket cs))

/-- The argument that decides which module is defined: that of the first call that is not passed
    over. -/
def decidingArgument? (ts : List Token) : Option Token :=
  let code := ts.filter Token.isCode
  (List.range code.length).findSome? fun i =>
    if isCall code i && !passedOver code i then argumentAt? code i else none

/-- What a call defines is made of its argument, so the search can be said to find an argument. -/
theorem triedAt?_eq_bind (code : List Token) (i : Nat) :
    triedAt? code i =
      (if isCall code i && !passedOver code i then argumentAt? code i else none).bind
        calledModule? := by
  have hsome : (triedAt? code i).isSome = (isCall code i && !passedOver code i) := isSome_triedAt?
  cases htried : isCall code i && !passedOver code i with
  | false =>
    rw [htried] at hsome
    simpa using hsome
  | true =>
    obtain ⟨hcall, hnot⟩ := Bool.and_eq_true_iff.mp htried
    exact triedAt?_of_isCallee (by simpa using hnot) (Bool.and_eq_true_iff.mp hcall).1

/-- The argument that decides is a literal or `...`, so that it gives a result. -/
theorem isSome_of_deciding {code : List Token} {i : Nat}
    (h : (if isCall code i && !passedOver code i then argumentAt? code i else none) = some t) :
    (calledModule? t).isSome = true := by
  have hsome : (triedAt? code i).isSome = (isCall code i && !passedOver code i) := isSome_triedAt?
  rw [triedAt?_eq_bind, h] at hsome
  split at h
  · rename_i htried
    rwa [htried] at hsome
  · cases h

/-- The first call that is tried gives the result of its argument. -/
theorem moduleCall?_eq_bind (ts : List Token) :
    moduleCall? ts = (decidingArgument? ts).bind calledModule? := by
  rw [moduleCall?_eq_firstTried?, firstTried?, decidingArgument?, ← List.range_eq_range',
    Nat.sub_zero]
  induction List.range (ts.filter Token.isCode).length with
  | nil => rfl
  | cons i positions ih =>
    rw [List.findSome?_cons, List.findSome?_cons, ih, triedAt?_eq_bind]
    cases hargument : (if isCall (ts.filter Token.isCode) i && !passedOver (ts.filter Token.isCode) i
      then argumentAt? (ts.filter Token.isCode) i else none) with
    | none => rfl
    | some t =>
      obtain ⟨call, hcall⟩ := Option.isSome_iff_exists.mp (isSome_of_deciding hargument)
      rw [Option.bind_some, hcall]

theorem mem_of_decidingArgument? (h : decidingArgument? ts = some t) :
    t ∈ ts ∧ (calledModule? t).isSome = true := by
  obtain ⟨i, -, hargument⟩ := List.exists_of_findSome?_eq_some h
  refine ⟨?_, isSome_of_deciding hargument⟩
  split at hargument
  · have hmem : t ∈ ts.filter Token.isCode := by
      unfold argumentAt? at hargument
      split at hargument <;> exact List.mem_of_getElem? hargument
    exact List.mem_of_mem_filter hmem
  · cases hargument

/-- A literal names what is read as its content, if that is not empty. -/
theorem calledModule?_of_str (hkind : t.kind = .str) :
    calledModule? t = some (.named name) ↔ unquote? t.text = some name ∧ name ≠ [] := by
  rw [calledModule?, if_pos hkind]
  cases unquote? t.text with
  | none => simp
  | some content =>
    cases content with
    | nil => simp
    | cons c cs =>
      have hne : c :: cs = name → name ≠ [] := by
        rintro rfl
        exact List.cons_ne_nil c cs
      simpa using hne

/-- An argument names a module exactly if it is a literal that is closed or seems so. -/
theorem calledModule?_eq_named_iff (h : t ∈ tokens src) :
    calledModule? t = some (.named name) ↔ t.Names name := by
  by_cases hkind : t.kind = .str
  · rw [calledModule?_of_str hkind, unquote?_eq_some_iff (literal_of_mem_tokens h hkind), Token.Names]
    constructor
    · rintro ⟨hclosed | hseems, hne⟩
      · exact ⟨hkind, .inl ⟨hclosed, hne⟩⟩
      · exact ⟨hkind, .inr hseems⟩
    · rintro ⟨-, ⟨hclosed, hne⟩ | hseems⟩
      · exact ⟨.inl hclosed, hne⟩
      · exact ⟨.inr hseems, hseems.ne_nil⟩
  · constructor
    · intro hnamed
      rw [calledModule?, if_neg hkind] at hnamed
      split at hnamed <;> cases hnamed
    · exact fun hnames => absurd hnames.1 hkind

/-- A module is named by the literal that decides if that is closed and not empty, with the text
    between the quotes, or if it ends with an escaped quote in place of the closing one. Otherwise
    the name is left to the path. -/
theorem moduleCall?_named_iff (src : Text) :
    (∀ name, moduleCall? (tokens src) = some (.named name) ↔
      ∃ t, decidingArgument? (tokens src) = some t ∧ t.Names name) ∧
    (moduleCall? (tokens src) = some .fromPath ↔
      ∃ t, decidingArgument? (tokens src) = some t ∧ ∀ name, ¬t.Names name) ∧
    ∀ literal content, SeemsClosed literal content → ∀ name, ¬IsClosed literal name := by
  refine ⟨?_, ?_, fun literal content h name => h.not_isClosed⟩
  · intro name
    rw [moduleCall?_eq_bind, Option.bind_eq_some_iff]
    refine exists_congr fun t => and_congr_right fun ht => ?_
    exact calledModule?_eq_named_iff (mem_of_decidingArgument? ht).1
  · rw [moduleCall?_eq_bind, Option.bind_eq_some_iff]
    refine exists_congr fun t => and_congr_right fun ht => ?_
    obtain ⟨hmem, hsome⟩ := mem_of_decidingArgument? ht
    obtain ⟨call, hcall⟩ := Option.isSome_iff_exists.mp hsome
    simp only [← calledModule?_eq_named_iff hmem, hcall]
    cases call <;> simp

/-- An escaped quote between two characters. -/
def escapedParts : List LiteralPart :=
  [.plain 'a', .escape '"', .plain 'b']

/-- A character and an escaped backslash. -/
def backslashParts : List LiteralPart :=
  [.plain 'a', .escape '\\']

theorem moduleCall?_named_iff_escaped :
    moduleCall? (tokens "module(\"a\\\"b\", x)") = some (.named "a\\\"b") ∧
    moduleCall? (tokens "module \"a\\\\\\\" \nx") = some (.named "a\\\\\\") ∧
    SeemsClosed "\"a\\\\\\\" " "a\\\\\\" ∧ ¬IsClosed "\"a\\\\\\\" " "a\\\\\\" := by
  have hclosed : IsClosed "\"a\\\"b\"" "a\\\"b" :=
    ⟨'"', escapedParts, ⟨by decide, by decide, by decide⟩, by decide, by decide⟩
  have hseems : SeemsClosed "\"a\\\\\\\" " "a\\\\\\" :=
    ⟨'"', backslashParts, [' '], ⟨by decide, by decide, by decide⟩,
      List.forall_mem_singleton.mpr (by decide), by decide, by decide⟩
  obtain ⟨hnamed, -, -⟩ := moduleCall?_named_iff "module(\"a\\\"b\", x)"
  obtain ⟨hunclosed, -, hdiffer⟩ := moduleCall?_named_iff "module \"a\\\\\\\" \nx"
  refine ⟨?_, ?_, hseems, hdiffer _ _ hseems _⟩
  · exact (hnamed _).mpr ⟨⟨.str, "\"a\\\"b\"", 1⟩, by decide +kernel, rfl, .inl ⟨hclosed, by decide⟩⟩
  · exact (hunclosed _).mpr ⟨⟨.str, "\"a\\\\\\\" ", 1⟩, by decide +kernel, rfl, .inr hseems⟩

/-- A literal whose last quote is escaped is not closed, and yet it names a module. -/
theorem moduleCall?_named_by_unclosed :
    moduleCall? (tokens "module \"abc\\\"") = some (.named "abc\\") ∧
      ∃ t, decidingArgument? (tokens "module \"abc\\\"") = some t ∧ t.kind = .str ∧
        ∀ content, ¬IsClosed t.text content := by
  have hseems : SeemsClosed "\"abc\\\"" "abc\\" :=
    ⟨'"', [.plain 'a', .plain 'b', .plain 'c'], [], ⟨by decide, by decide, by decide⟩,
      List.forall_mem_nil _, by decide, by decide⟩
  refine ⟨by decide +kernel, ⟨.str, "\"abc\\\"", 1⟩, by decide +kernel, rfl, ?_⟩
  exact fun content => hseems.not_isClosed

end Lua

end SourceDoc
