import SourceDoc.Proofs.Language.CPrototype

namespace SourceDoc

open Token (Piece word mark)

namespace Text

/-- Whether a text is a number: a digit with all that can continue it. -/
def isNumber : Text → Bool
  | [] => false
  | c :: cs => isAsciiDigit c && cs.all Lexeme.isNumberChar

/-- Digits continue identifiers but do not start them. -/
theorem isIdentStart_of_isAsciiDigit {c : Char} (hc : isAsciiDigit c = true) :
    isIdentStart c = false := by
  rw [Bool.eq_false_iff]
  intro hstart
  have hbounds := toNat_of_isIdentStart hstart
  simp only [isAsciiDigit, Bool.and_eq_true, decide_eq_true_eq, Char.le_def,
    UInt32.le_iff_toNat_le] at hc
  change 48 ≤ c.val.toNat ∧ c.val.toNat ≤ 57 at hc
  unfold Char.toNat at hbounds
  omega

/-- No identifier is a number. -/
theorem isNumber_of_isIdent {t : Text} (ht : isIdent t = true) : isNumber t = false := by
  cases t with
  | nil => rfl
  | cons c cs =>
    obtain ⟨hc, -⟩ := Bool.and_eq_true_iff.mp ht
    rw [Bool.eq_false_iff]
    intro hnumber
    have hstart := isIdentStart_of_isAsciiDigit (Bool.and_eq_true_iff.mp hnumber).1
    rw [hc] at hstart
    cases hstart

end Text

namespace C

open Lexeme (Reads)

section Lexing

variable {rest : Text} {p : Piece} {pieces : List Piece}

/-- Letters, low lines and digits start words. -/
theorem lexeme_of_isIdentChar {c : Char} (hc : Text.isIdentChar c = true) (cs : Text) :
    lexeme c cs =
      (.word,
        Lexeme.run (if Text.isIdentStart c then Text.isIdentChar else Lexeme.isNumberChar) cs) := by
  have hbounds := Text.toNat_of_isIdentChar hc
  have hblank := Text.isBlank_of_isIdentChar hc
  have hbefore : ∀ d : Char, d.toNat < 48 → c ≠ d := by
    rintro d hd rfl
    omega
  have hquote : Lexeme.isQuote c = false := by
    rw [Lexeme.isQuote, beq_eq_false_iff_ne.mpr (hbefore '"' (by decide)),
      beq_eq_false_iff_ne.mpr (hbefore '\'' (by decide)), Bool.or_false]
  have hslash := hbefore '/' (by decide)
  have hhash := hbefore '#' (by decide)
  cases hstart : Text.isIdentStart c with
  | true => simp [lexeme, Lexeme.code, hblank, hslash, hhash, hquote, hstart]
  | false =>
    have hdigit : Text.isAsciiDigit c = true := by
      rwa [Text.isIdentChar, hstart, Bool.false_or] at hc
    simp [lexeme, Lexeme.code, hblank, hslash, hhash, hquote, hstart, hdigit]

/-- Operators and brackets that no longer operator starts with when a blank follows. -/
def marks : List Text :=
  ["*", "&", "::", "<", ">", "(", ")", "[", "]", ","]

/-- Whether a token is what the lexer reads from its text when a blank follows. -/
def isWritten : Piece → Bool
  | (.word, text) => Text.isIdent text || Text.isNumber text
  | (.other, text) => marks.contains text
  | _ => false

/-- A token is read back if it is an identifier or a number, or one of the marks. -/
theorem isWritten_iff :
    isWritten p = true ↔
      p.1 = .word ∧ (Text.isIdent p.2 = true ∨ Text.isNumber p.2 = true) ∨
        p.1 = .other ∧ p.2 ∈ marks := by
  obtain ⟨kind, text⟩ := p
  cases kind <;> simp [isWritten]

/-- Tokens as a text, with a blank after each of them. -/
def spaced (pieces : List Piece) : Text :=
  pieces.flatMap fun p => p.2 ++ [' ']

theorem reads_word {t : Text} (ht : Text.isIdent t = true ∨ Text.isNumber t = true) :
    Reads lexeme (t ++ ' ' :: rest) [word t] (' ' :: rest) := by
  cases t with
  | nil => cases ht <;> contradiction
  | cons c cs =>
    refine .piece ?_ (.done _)
    obtain hident | hnumber := ht
    · obtain ⟨hc, hcs⟩ := Bool.and_eq_true_iff.mp hident
      have hchar : Text.isIdentChar c = true := by rw [Text.isIdentChar, hc, Bool.true_or]
      rw [lexeme_of_isIdentChar hchar, if_pos hc, Lexeme.run_append hcs (by simp; decide)]
    · obtain ⟨hc, hcs⟩ := Bool.and_eq_true_iff.mp hnumber
      have hchar : Text.isIdentChar c = true := by rw [Text.isIdentChar, hc, Bool.or_true]
      rw [lexeme_of_isIdentChar hchar, Text.isIdentStart_of_isAsciiDigit hc,
        if_neg Bool.false_ne_true, Lexeme.run_append hcs (by simp; decide)]

/-- A mark is read alone, since no longer operator starts with it and a blank. -/
theorem reads_mark {t : Text} (ht : t ∈ marks) :
    Reads lexeme (t ++ ' ' :: rest) [mark t] (' ' :: rest) := by
  simp only [marks, List.mem_cons, List.not_mem_nil, or_false] at ht
  rcases ht with rfl | rfl | rfl | rfl | rfl | rfl | rfl | rfl | rfl | rfl <;>
    exact .piece rfl (.done _)

theorem isBlank_head_of_isWritten (hp : isWritten p = true) :
    ∀ c ∈ (p.2 ++ rest).head?, Text.isBlank c = false := by
  obtain ⟨kind, text⟩ := p
  obtain ⟨-, hident | hnumber⟩ | ⟨-, hmark⟩ := isWritten_iff.mp hp
  · exact Text.isBlank_head_of_isIdent hident (List.prefix_append text rest)
  · cases text with
    | nil => cases hnumber
    | cons d ds =>
      intro c hc
      cases hc
      have hd : Text.isAsciiDigit d = true := (Bool.and_eq_true_iff.mp hnumber).1
      exact Text.isBlank_of_isIdentChar (by rw [Text.isIdentChar, hd, Bool.or_true])
  · have hmarks : marks.all (·.head?.any (!Text.isBlank ·)) = true := by decide
    have hfirst := List.all_eq_true.mp hmarks text hmark
    cases text with
    | nil => cases hfirst
    | cons d ds =>
      intro c hc
      cases hc
      simpa using hfirst

/-- Tokens with a blank after each of them are read back. -/
theorem reads_spaced (hpieces : ∀ p ∈ pieces, isWritten p = true) :
    Reads lexeme (spaced pieces) (pieces.flatMap fun p => [p, (.space, [' '])]) [] ∧
      ∀ c ∈ (spaced pieces).head?, Text.isBlank c = false := by
  induction pieces with
  | nil => exact ⟨.done [], by simp [spaced]⟩
  | cons p pieces ih =>
    obtain ⟨hp, hpieces⟩ := List.forall_mem_cons.mp hpieces
    obtain ⟨hreads, hnext⟩ := ih hpieces
    have htext : spaced (p :: pieces) = p.2 ++ ' ' :: spaced pieces := by
      rw [spaced, List.flatMap_cons, List.append_assoc, List.singleton_append, spaced]
    -- the blank ends the token, and the next token, which does not start with one, the blank
    have hpiece : Reads lexeme (p.2 ++ ' ' :: spaced pieces) [p] (' ' :: spaced pieces) := by
      obtain ⟨kind, text⟩ := p
      obtain ⟨rfl, hword⟩ | ⟨rfl, hmark⟩ := isWritten_iff.mp hp
      · exact reads_word hword
      · exact reads_mark hmark
    have hblank : Reads lexeme ([' '] ++ spaced pieces) [(.space, [' '])] (spaced pieces) :=
      Lexeme.reads_blanks (fun c cs hc => by rw [lexeme, if_pos hc]) (by decide) (by decide) hnext
    rw [htext]
    exact ⟨hpiece.append (hblank.append hreads), isBlank_head_of_isWritten hp⟩

/-- A text that tokens are written to, with a blank after each of them, has these tokens for its
    code. -/
theorem code_tokens_spaced (hpieces : ∀ p ∈ pieces, isWritten p = true) :
    Token.code (tokens (spaced pieces)) = pieces := by
  rw [tokens, (reads_spaced hpieces).1.tokens_eq, Lexeme.tokens, List.append_nil,
    Token.code_placed]
  induction pieces with
  | nil => rfl
  | cons p pieces ih =>
    obtain ⟨hp, hpieces⟩ := List.forall_mem_cons.mp hpieces
    have hcode : p.1 = .word ∨ p.1 = .other := (isWritten_iff.mp hp).imp And.left And.left
    rw [List.flatMap_cons, List.filter_append, ih hpieces]
    rcases hcode with hkind | hkind <;> simp [Token.isCodePiece, hkind]

end Lexing

/-- A parameter with array suffixes, each with a number in it or empty. -/
structure Parameter where
  /-- Words of the type, and `*`. -/
  type : List Piece
  ident : Text
  sizes : List (Option Text)
  type_mem : ∀ p ∈ type, p.1 = .word ∧ Text.isIdent p.2 = true ∨ p = mark "*" := by decide
  isIdent_ident : Text.isIdent ident = true := by decide
  ident_ne : ident ≠ "void" := by decide
  isNumber_sizes : ∀ size ∈ sizes, ∀ n ∈ size, Text.isNumber n = true := by decide

/-- The tokens of an array suffix. -/
def suffixPieces : Option Text → List Piece
  | none => [mark "[", mark "]"]
  | some n => [mark "[", word n, mark "]"]

namespace Parameter

variable (p : Parameter)

/-- The tokens of a parameter. -/
def pieces : List Piece :=
  p.type ++ word p.ident :: p.sizes.flatMap suffixPieces

/-- The numbers in the suffixes. -/
def numbers : List Text :=
  p.sizes.filterMap id

/-- The name under which a parameter is reported. -/
def reported : Text :=
  p.numbers.getLast?.getD p.ident

theorem isNumber_of_mem_numbers {n : Text} (hn : n ∈ p.numbers) : Text.isNumber n = true := by
  obtain ⟨size, hsize, rfl⟩ := List.mem_filterMap.mp hn
  exact p.isNumber_sizes _ hsize n rfl

theorem mem_pieces {q : Piece} (hq : q ∈ p.pieces) :
    q.1 = .word ∧ (Text.isIdent q.2 = true ∨ Text.isNumber q.2 = true) ∨
      q ∈ [mark "*", mark "[", mark "]"] := by
  rw [pieces, List.mem_append, List.mem_cons, List.mem_flatMap] at hq
  obtain htype | rfl | ⟨size, hsize, hq⟩ := hq
  · obtain ⟨hword, hident⟩ | rfl := p.type_mem q htype
    · exact .inl ⟨hword, .inl hident⟩
    · exact .inr (by decide)
  · exact .inl ⟨rfl, .inl p.isIdent_ident⟩
  · cases size with
    | none => exact .inr (List.mem_cons_of_mem _ hq)
    | some n =>
      obtain rfl | rfl | rfl : q = mark "[" ∨ q = word n ∨ q = mark "]" := by
        simpa only [suffixPieces, List.mem_cons, List.not_mem_nil, or_false] using hq
      · exact .inr (by decide)
      · exact .inl ⟨rfl, .inr (p.isNumber_sizes _ hsize n rfl)⟩
      · exact .inr (by decide)

theorem isWritten_of_mem_pieces {q : Piece} (hq : q ∈ p.pieces) : isWritten q = true := by
  obtain hword | hmark := p.mem_pieces hq
  · exact isWritten_iff.mpr (.inl hword)
  · have hmarks : ∀ q ∈ [mark "*", mark "[", mark "]"], isWritten q = true := by decide
    exact hmarks q hmark

/-- The last number in a suffix is reported in the place of the identifier. -/
theorem isNumber_reported_iff : Text.isNumber p.reported = true ↔ p.numbers ≠ [] := by
  rw [reported]
  cases hlast : p.numbers.getLast? with
  | none =>
    rw [List.getLast?_eq_none_iff] at hlast
    simp [hlast, Text.isNumber_of_isIdent p.isIdent_ident]
  | some n =>
    have hn : n ∈ p.numbers := List.mem_of_getLast? hlast
    simp [p.isNumber_of_mem_numbers hn, List.ne_nil_of_mem hn]

/-- The identifier is reported exactly if no suffix has a size. -/
theorem reported_eq_ident_iff : p.reported = p.ident ↔ p.numbers = [] := by
  constructor
  · intro heq
    by_contra hnumbers
    have hnumber := p.isNumber_reported_iff.mpr hnumbers
    rw [heq, Text.isNumber_of_isIdent p.isIdent_ident] at hnumber
    cases hnumber
  · intro hnumbers
    rw [reported, hnumbers]
    rfl

end Parameter

section Params

variable {names : List Text} {part more : List Piece}

/-- Whether a token is neither a parenthesis nor a comma. -/
def isPlain (q : Piece) : Bool :=
  q ∉ [mark "(", mark ")", mark ","]

/-- Tokens outside parentheses and commas add their names to the current parameter. -/
theorem paramsFrom_append (hpart : ∀ q ∈ part, isPlain q = true) :
    paramsFrom names 0 (part ++ more) =
      paramsFrom (names ++ part.filterMap fun q => name? (q, 0)) 0 more := by
  induction part generalizing names with
  | nil => simp
  | cons q part ih =>
    obtain ⟨hq, hpart⟩ := List.forall_mem_cons.mp hpart
    obtain ⟨hopening, hclosing, hcomma⟩ : q ≠ mark "(" ∧ q ≠ mark ")" ∧ q ≠ mark "," := by
      simpa [isPlain] using hq
    have htop : isTopComma (q, 0) = false :=
      decide_eq_false fun heq => hcomma (congrArg Prod.fst heq)
    rw [List.cons_append, paramsFrom_cons htop, depthAfter, if_neg hopening, if_neg hclosing,
      ih hpart, List.append_assoc, List.filterMap_cons]
    cases name? (q, 0) <;> rfl

/-- Brackets of arrays are no parentheses, so all of a parameter is on one level. -/
theorem Parameter.isPlain_of_mem_pieces (p : Parameter) {q : Piece} (hq : q ∈ p.pieces) :
    isPlain q = true := by
  obtain ⟨hword, -⟩ | hmark := p.mem_pieces hq
  · obtain ⟨kind, text⟩ := q
    obtain rfl : kind = .word := hword
    simp [isPlain]
  · have hmarks : ∀ q ∈ [mark "*", mark "[", mark "]"], isPlain q = true := by decide
    exact hmarks q hmark

/-- Of the suffixes the numbers are taken for names, in their order. -/
theorem filterMap_suffixPieces (sizes : List (Option Text)) :
    ((sizes.flatMap suffixPieces).filterMap fun q => name? (q, 0)) = sizes.filterMap id := by
  induction sizes with
  | nil => rfl
  | cons size sizes ih =>
    rw [List.flatMap_cons, List.filterMap_append, ih]
    cases size <;> rfl

/-- The names in a parameter end with its identifier and the numbers. -/
theorem Parameter.lastName?_eq (p : Parameter) :
    lastName? (p.pieces.filterMap fun q => name? (q, 0)) = some p.reported := by
  have hident : name? (word p.ident, 0) = some p.ident := rfl
  rw [pieces, List.filterMap_append, List.filterMap_cons, hident, filterMap_suffixPieces, lastName?,
    if_neg, List.getLast?_append_cons, List.getLast?_cons]
  · rfl
  · intro hvoid
    have hmem : p.ident ∈ [("void" : Text)] := hvoid ▸ List.mem_append_right _ List.mem_cons_self
    exact p.ident_ne (List.mem_singleton.mp hmem)

/-- A parameter is reported under one name, at the end of the list or before a comma. -/
theorem paramsFrom_pieces (p : Parameter) (more : List Piece) :
    paramsFrom [] 0 p.pieces = [p.reported] ∧
      paramsFrom [] 0 (p.pieces ++ mark "," :: more) = p.reported :: paramsFrom [] 0 more := by
  have hplain : ∀ q ∈ p.pieces, isPlain q = true := fun q hq => p.isPlain_of_mem_pieces hq
  constructor
  · rw [← List.append_nil p.pieces, paramsFrom_append hplain, List.nil_append, paramsFrom_nil,
      p.lastName?_eq]
    rfl
  · rw [paramsFrom_append hplain, List.nil_append, paramsFrom_comma, p.lastName?_eq]
    rfl

/-- The tokens of parameters with commas between them. -/
def listPieces (ps : List Parameter) : List Piece :=
  [mark ","].intercalate (ps.map Parameter.pieces)

theorem listPieces_cons_cons (p q : Parameter) (ps : List Parameter) :
    listPieces (p :: q :: ps) = p.pieces ++ mark "," :: listPieces (q :: ps) := by
  simp [listPieces]

theorem mem_listPieces {ps : List Parameter} {q : Piece} (hq : q ∈ listPieces ps) :
    q = mark "," ∨ ∃ p ∈ ps, q ∈ p.pieces := by
  induction ps with
  | nil => cases hq
  | cons p ps ih =>
    cases ps with
    | nil =>
      rw [listPieces, List.map_singleton, List.intercalate_singleton] at hq
      exact .inr ⟨p, List.mem_cons_self, hq⟩
    | cons p' ps =>
      rw [listPieces_cons_cons, List.mem_append, List.mem_cons] at hq
      obtain hp | hcomma | hrest := hq
      · exact .inr ⟨p, List.mem_cons_self, hp⟩
      · exact .inl hcomma
      · refine (ih hrest).imp_right ?_
        rintro ⟨r, hr, hq⟩
        exact ⟨r, List.mem_cons_of_mem _ hr, hq⟩

theorem balanced_listPieces (ps : List Parameter) : Balanced (listPieces ps) := by
  have hparens : ∀ paren ∈ [mark "(", mark ")"], paren ∉ listPieces ps := by
    intro paren hparen hmem
    obtain rfl | ⟨p, -, hp⟩ := mem_listPieces hmem
    · exact absurd hparen (by decide)
    · have hplain := p.isPlain_of_mem_pieces hp
      have hnot : ∀ paren ∈ [mark "(", mark ")"], isPlain paren = false := by decide
      rw [hnot paren hparen] at hplain
      cases hplain
  have hopening := hparens (mark "(") (by decide)
  have hclosing := hparens (mark ")") (by decide)
  refine ⟨fun before hbefore => ?_, ?_⟩
  · rw [List.count_eq_zero.mpr fun hmem => hclosing (hbefore.subset hmem)]
    exact Nat.zero_le _
  · rw [List.count_eq_zero.mpr hclosing, List.count_eq_zero.mpr hopening]

/-- Its parameters are those it was written from, each under its reported name. -/
theorem paramsOf_listPieces (ps : List Parameter) :
    paramsOf (listPieces ps) = ps.map Parameter.reported := by
  rw [paramsOf_eq_paramsFrom]
  induction ps with
  | nil => rfl
  | cons p ps ih =>
    cases ps with
    | nil =>
      rw [listPieces, List.map_singleton, List.intercalate_singleton, (paramsFrom_pieces p []).1,
        List.map_singleton]
    | cons q ps =>
      rw [listPieces_cons_cons, (paramsFrom_pieces p _).2, ih, List.map_cons (a := p)]

end Params

/-- The tokens of a prototype. -/
def prototype (h : Head) (ps : List Parameter) : List Piece :=
  h.pieces ++ mark "(" :: (listPieces ps ++ [mark ")"])

theorem isWritten_prototype {h : Head} (hwritten : ∀ p ∈ h.pieces, isWritten p = true)
    (ps : List Parameter) : ∀ p ∈ prototype h ps, isWritten p = true := by
  intro q hq
  rw [prototype, List.mem_append, List.mem_cons, List.mem_append, List.mem_singleton] at hq
  obtain hhead | rfl | hlist | rfl := hq
  · exact hwritten q hhead
  · decide
  · obtain rfl | ⟨p, -, hp⟩ := mem_listPieces hlist
    · decide
    · exact p.isWritten_of_mem_pieces hp
  · decide

/-- A prototype is read to its end, whatever follows. -/
theorem readPieces_prototype (h : Head) (ps : List Parameter) (more : List Piece) :
    Language.c.readPieces .start (prototype h ps ++ more) =
      .done (some ⟨h.name, .function (ps.map Parameter.reported), h.isLocal⟩) := by
  obtain ⟨d, hopen, hclosing⟩ := h.readPieces_open (balanced_listPieces ps)
  have hsplit : prototype h ps ++ more =
      (h.pieces ++ mark "(" :: listPieces ps) ++ mark ")" :: more := by
    simp [prototype]
  rw [hsplit, Language.readPieces_append, hopen, Language.readPieces_cons, hclosing,
    Language.readPieces_done, paramsOf_listPieces]

/-- **Array sizes are taken for names**: in whatever source text the tokens of a prototype stand,
    a parameter with a number in an array suffix is reported under the last of these numbers, any
    other one under its identifier. Such texts are the tokens with blanks between them: the lexer
    makes a word of each number. -/
theorem readAll_array_suffixes (h : Head) (ps : List Parameter) :
    ((∀ p ∈ h.pieces, isWritten p = true) →
        Token.code (tokens (spaced (prototype h ps))) = prototype h ps) ∧
      (∀ src more, Token.code (tokens src) = prototype h ps ++ more →
        Language.c.readAll .start (tokens src) =
          .done (some ⟨h.name, .function (ps.map Parameter.reported), h.isLocal⟩)) ∧
      (ps.map Parameter.reported = ps.map Parameter.ident ↔ ∀ p ∈ ps, p.numbers = []) ∧
      ((∃ name ∈ ps.map Parameter.reported, Text.isNumber name = true) ↔
        ∃ p ∈ ps, p.numbers ≠ []) := by
  refine ⟨fun hwritten => code_tokens_spaced (isWritten_prototype hwritten ps), ?_, ?_, ?_⟩
  · intro src more hsrc
    rw [Language.readAll_eq_readPieces, hsrc, readPieces_prototype]
  · rw [List.map_inj_left]
    exact forall₂_congr fun p _ => p.reported_eq_ident_iff
  · simp only [List.mem_map, exists_exists_and_eq_and, Parameter.isNumber_reported_iff]

theorem readAll_array_suffixes_sum :
    Language.c.readAll .start (tokens "static int sum(int m[][10], char *names[], int n);") =
      .done (some ⟨"sum", .function ["10", "names", "n"], true⟩) := by
  let h : Head := { leading := ["static"], first := "int", more := [word "sum"], name := "sum" }
  let m : Parameter := { type := [word "int"], ident := "m", sizes := [none, some "10"] }
  let names : Parameter :=
    { type := [word "char", mark "*"], ident := "names", sizes := [none] }
  let n : Parameter := { type := [word "int"], ident := "n", sizes := [] }
  exact (readAll_array_suffixes h [m, names, n]).2.1 _ [mark ";"] (by decide +kernel)

/-- Not every parameter is reported under its identifier. -/
theorem readAll_array_size_reported :
    ∃ (h : Head) (ps : List Parameter),
      Token.code (tokens "int f(int a[10])") = prototype h ps ∧
      Language.c.readAll .start (tokens "int f(int a[10])") ≠
        .done (some ⟨h.name, .function (ps.map Parameter.ident), h.isLocal⟩) := by
  let h : Head := { leading := [], first := "int", more := [word "f"], name := "f" }
  let a : Parameter := { type := [word "int"], ident := "a", sizes := [some "10"] }
  exact ⟨h, [a], by decide +kernel, by decide +kernel⟩

end C

end SourceDoc
