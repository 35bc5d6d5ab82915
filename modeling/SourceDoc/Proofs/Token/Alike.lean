import SourceDoc.Proofs.Text.Words
import SourceDoc.Proofs.Token.LineEnds

namespace SourceDoc

open Text (EscapesNoFeed IsStop Returned SameLines)

/-- Tokens that differ in nothing but line ends. Code may only differ in a carriage return at the
    end of a line that is one token, and in line ends of literals. -/
inductive Token.Alike (lang : Language) : Token → Token → Prop
  | same {t : Token} (ht : t.isCode = true) : Alike lang t t
  | line {text : Text} (hhead : text.head? = some '#') (line : Nat) :
      Alike lang ⟨.other, text, line⟩ ⟨.other, text ++ ['\r'], line⟩
  | literal {text other : Text} (hnewlines : Text.newlines other = Text.newlines text)
      (hcontent : unquote? other = unquote? text) (line : Nat) :
      Alike lang ⟨.str, text, line⟩ ⟨.str, other, line⟩
  | comment {text other : Text} (hnewlines : Text.newlines other = Text.newlines text)
      (hcomment : lang.CommentsAlike text other) (line : Nat) :
      Alike lang ⟨.comment, text, line⟩ ⟨.comment, other, line⟩
  | space {text other : Text} (hnewlines : Text.newlines other = Text.newlines text) (line : Nat) :
      Alike lang ⟨.space, text, line⟩ ⟨.space, other, line⟩

namespace Token.Alike

variable {lang : Language} {t u : Token}

theorem kind_eq (h : Alike lang t u) : u.kind = t.kind := by
  cases h <;> rfl

theorem line_eq (h : Alike lang t u) : u.line = t.line := by
  cases h <;> rfl

theorem endLine_eq (h : Alike lang t u) : u.endLine = t.endLine := by
  cases h with
  | same => rfl
  | line => simp [endLine, Text.newlines]
  | literal hnewlines => rw [endLine, endLine, hnewlines]
  | comment hnewlines => rw [endLine, endLine, hnewlines]
  | space hnewlines => rw [endLine, endLine, hnewlines]

theorem isCode_eq (h : Alike lang t u) : u.isCode = t.isCode := by
  rw [isCode, isCode, h.kind_eq]

theorem commentsAlike (h : Alike lang t u) (ht : t.kind = .comment) :
    lang.CommentsAlike t.text u.text := by
  cases h with
  | comment _ hcomment => exact hcomment
  | same hcode =>
    rw [isCode, ht] at hcode
    cases hcode
  | line => cases ht
  | literal => cases ht
  | space => cases ht

end Token.Alike

/-- A literal in other brackets than quotes has no content. -/
theorem unquote?_cons_eq_none {c : Char} (hblank : Text.isBlank c = false)
    (hquote : Lexeme.isQuote c = false) (cs : Text) : unquote? (c :: cs) = none := by
  have hstart : Text.trimStart (c :: cs) = c :: cs :=
    Text.trimStart_eq_self_iff.mpr (by simpa using hblank)
  have hstarts : Text.trim (c :: cs) <+: c :: cs := by
    rw [Text.trim, hstart]
    exact List.rdropWhile_prefix Text.isBlank (c :: cs)
  unfold unquote?
  split
  · rename_i d rest htrim
    rw [htrim] at hstarts
    obtain ⟨more, hmore⟩ := hstarts
    obtain ⟨rfl, -⟩ := List.cons_eq_cons.mp hmore
    rw [if_neg]
    rintro ⟨hd, -⟩
    rw [hquote] at hd
    cases hd
  · rfl

/-- A return at the end of a token that is cut off by the end of its line does not make it a closed
    literal. -/
theorem unquote?_append_stop {stop : Text} (hstop : IsStop stop) (t : Text) :
    unquote? (t ++ stop) = unquote? t := by
  unfold unquote?
  rw [Text.trim_append_blank t hstop.all_isBlank]

namespace Lexeme

/-- What a rule says of two places cuts off alike tokens there and leaves texts that differ in line
    ends. -/
structure Agrees (lang : Language) (c : Char) (cs : Text) (d : Char) (ds : Text)
    (a b : Token.Kind × Nat) : Prop where
  token : ∀ line, Token.Alike lang ⟨a.1, c :: cs.take a.2, line⟩ ⟨b.1, d :: ds.take b.2, line⟩
  rest : Returned [] (cs.drop a.2) (ds.drop b.2)

section Agrees

variable {lang : Language} {c : Char} {cs ds : Text} {n m : Nat}

/-- A token without line ends is the same in both texts. -/
theorem SameCut.agrees (h : SameCut cs ds n m) {kind : Token.Kind} (hspace : kind ≠ .space)
    (hcomment : kind ≠ .comment) : Agrees lang c cs c ds (kind, n) (kind, m) where
  token := by
    intro line
    rw [h.taken]
    exact .same (by simp [Token.isCode, hspace, hcomment])
  rest := h.rest

/-- A literal may have taken a carriage return along only if it was not closed, and then it has no
    content. -/
theorem LineCut.agrees_literal (h : LineCut cs ds n m) :
    Agrees lang c cs c ds (.str, n) (.str, m) := by
  obtain ⟨hfeed, stop, hstop, hcut⟩ := h
  have htaken := hcut.taken.eq_append hfeed
  refine ⟨?_, hcut.rest⟩
  intro line
  rw [htaken, ← List.cons_append]
  apply Token.Alike.literal
  · rw [Text.newlines, List.count_append, ← Text.newlines, ← Text.newlines, hstop.newlines_eq_zero,
      Nat.add_zero]
  · exact unquote?_append_stop hstop _

/-- A line that is set apart may differ in the return at its end, which nothing reads. -/
theorem LineCut.agrees_line (h : LineCut cs ds n m) :
    Agrees lang '#' cs '#' ds (.other, n) (.other, m) := by
  obtain ⟨hfeed, stop, hstop, hcut⟩ := h
  have htaken := hcut.taken.eq_append hfeed
  refine ⟨?_, hcut.rest⟩
  intro line
  rw [htaken, ← List.cons_append]
  rcases hstop with rfl | rfl
  · rw [List.append_nil]
    exact .same rfl
  · exact .line rfl line

/-- Comments may differ in line ends inside, if they are read alike then. -/
theorem Cut.agrees_comment {stop : Text} (hstop : IsStop stop) (h : Cut stop cs ds n m)
    (hc : c ≠ '\r')
    (hcomment : Returned stop (c :: cs.take n) (c :: ds.take m) →
      lang.CommentsAlike (c :: cs.take n) (c :: ds.take m)) :
    Agrees lang c cs c ds (.comment, n) (.comment, m) := by
  have htaken : Returned stop (c :: cs.take n) (c :: ds.take m) := .char hc h.taken
  refine ⟨?_, h.rest⟩
  intro line
  apply Token.Alike.comment
  · rw [htaken.newlines_eq, hstop.newlines_eq_zero, Nat.add_zero]
  · exact hcomment htaken

/-- Blanks before a line end go on with the line end, also if it has a carriage return. -/
theorem agrees_space {d : Char} (hc : Text.isBlank c = true)
    (h : Returned [] (c :: cs) (d :: ds)) :
    Text.isBlank d = true ∧
      Agrees lang c cs d ds (.space, run Text.isBlank cs) (.space, run Text.isBlank ds) := by
  have hd : Text.isBlank d = true := by
    cases h with
    | char => exact hc
    | feed => decide
  have hcut := cut_run (by decide : Text.isBlank '\r' = Text.isBlank '\n') h
  rw [run_cons, run_cons, if_pos hc, if_pos hd] at hcut
  refine ⟨hd, ?_, hcut.rest⟩
  intro line
  exact .space hcut.taken.newlines_eq line

/-- What both languages share agrees, given operators without line ends in them. -/
theorem agrees_code {operators : List Text}
    (hends : ∀ op ∈ operators, '\n' ∉ op ∧ '\r' ∉ op) (hc : c ≠ '\r') (h : Returned [] cs ds)
    (hescape : EscapesNoFeed cs) :
    Agrees lang c cs c ds (code operators c cs) (code operators c ds) := by
  unfold code
  split
  · rename_i hquote
    exact (lineCut_quoted hquote h hescape).agrees_literal
  · split
    · exact (sameCut_run (by decide) (by decide) h).agrees (by decide) (by decide)
    · split
      · exact (sameCut_run (by decide) (by decide) h).agrees (by decide) (by decide)
      · exact (sameCut_operator hends (.char hc h) h).agrees (by decide) (by decide)

end Agrees

/-- A rule that takes blanks together and agrees everywhere else. -/
structure Respects (lang : Language) (rule : Lexeme) : Prop where
  blank : ∀ {c : Char} {cs : Text}, Text.isBlank c = true →
    rule c cs = (.space, run Text.isBlank cs)
  code : ∀ {c : Char} {cs ds : Text}, Text.isBlank c = false → c ≠ '\r' → Returned [] cs ds →
    EscapesNoFeed cs → Agrees lang c cs c ds (rule c cs) (rule c ds)

theorem Respects.agrees {lang : Language} {rule : Lexeme} (hrule : Respects lang rule)
    {c d : Char} {cs ds : Text} (h : Returned [] (c :: cs) (d :: ds))
    (hescape : EscapesNoFeed (c :: cs)) : Agrees lang c cs d ds (rule c cs) (rule d ds) := by
  cases hblank : Text.isBlank c with
  | true =>
    obtain ⟨hblank', hagrees⟩ := agrees_space hblank h
    rw [hrule.blank hblank, hrule.blank hblank']
    exact hagrees
  | false =>
    cases h with
    | char hc h => exact hrule.code hblank hc h (hescape.of_suffix (List.suffix_cons c cs))
    | feed => cases hblank

/-- Under such a rule, the tokens of texts that differ in line ends are alike. -/
theorem Respects.tokens_alike {lang : Language} {rule : Lexeme} (hrule : Respects lang rule)
    (line : Nat) {src other : Text} (h : Returned [] src other)
    (hescape : EscapesNoFeed src) :
    List.Forall₂ (Token.Alike lang) (rule.tokens line src) (rule.tokens line other) := by
  fun_induction tokens rule line src generalizing other with
  | case1 line =>
    cases h
    rw [tokens]
    exact .nil
  | case2 line c cs kind more hcs text =>
    rename_i ih
    obtain ⟨d, ds, rfl⟩ : ∃ d ds, other = d :: ds := by
      cases h with
      | char => exact ⟨_, _, rfl⟩
      | feed => exact ⟨_, _, rfl⟩
    have hagrees := hrule.agrees h hescape
    have hfirst := hagrees.token line
    have hline := hfirst.endLine_eq
    have hrest := hescape.of_suffix ((List.drop_suffix more cs).trans (List.suffix_cons c cs))
    rw [hcs] at hagrees hfirst hline
    rw [tokens]
    apply List.Forall₂.cons hfirst
    simp only [Token.endLine] at hline
    rw [hline]
    exact ih hagrees.rest hrest

end Lexeme

namespace Lua

variable {cs ds : Text}

/-- Comments of Lua are cut alike and read alike, in both of their forms. -/
theorem agrees_comment (h : Returned [] cs ds) :
    Lexeme.Agrees .lua '-' ('-' :: cs) '-' ('-' :: ds) (.comment, 1 + comment cs)
      (.comment, 1 + comment ds) := by
  obtain ⟨stop, hstop, hcut⟩ := cut_comment h
  rw [Nat.add_comm 1, Nat.add_comm 1]
  exact (hcut.char (by decide)).agrees_comment hstop (by decide) (commentsAlike hstop)

/-- Long brackets are cut alike; they have no content as literals, so nothing of them is
    compared. -/
theorem agrees_longBracket {level : Nat} (h : Returned [] ('[' :: cs) ('[' :: ds))
    (hlevel : bracketLevel? ('[' :: cs) = some level) :
    Lexeme.Agrees .lua '[' cs '[' ds (.str, longBracket level cs) (.str, longBracket level ds) := by
  have hcut := cut_longBracket h hlevel
  refine ⟨?_, hcut.rest⟩
  intro line
  apply Token.Alike.literal
  · exact (hcut.char (by decide)).taken.newlines_eq
  · rw [unquote?_cons_eq_none (by decide) (by decide),
      unquote?_cons_eq_none (by decide) (by decide)]

/-- The rule for Lua agrees on texts that differ in line ends. -/
theorem respects_lexeme : Lexeme.Respects .lua lexeme where
  blank := by
    intro c cs hblank
    rw [lexeme, if_pos hblank]
  code := by
    intro c cs ds hblank hc h hescape
    have hwhole : Returned [] (c :: cs) (c :: ds) := .char hc h
    have hdash := SameLines.head?_eq_some_iff (by decide : '-' ≠ '\n') (by decide) (.inl h)
    unfold lexeme
    rw [hblank, bracketLevel?_eq (.inl hwhole)]
    simp only [hdash, Bool.false_eq_true, if_false]
    split
    · rename_i hdashes
      obtain ⟨rfl, hdash⟩ := hdashes
      obtain ⟨rest, rfl⟩ := List.head?_eq_some_iff.mp hdash
      cases h with
      | char _ h => exact agrees_comment h
    · split
      · rename_i level hlevel
        obtain ⟨rest, hopening⟩ := eq_of_bracketLevel? hlevel
        obtain ⟨rfl, -⟩ := List.cons_eq_cons.mp hopening
        exact agrees_longBracket hwhole hlevel
      · exact Lexeme.agrees_code (by decide : ∀ op ∈ operators, _) hc h hescape

/-- The first line may be set apart, with the carriage return at its end. -/
theorem tokens_alike {src other : Text} (h : Returned [] src other)
    (hescape : EscapesNoFeed src) :
    List.Forall₂ (Token.Alike .lua) (tokens src) (tokens other) := by
  have hstarts := SameLines.isPrefixOf_eq (by decide : '\n' ∉ "#!".toList) (by decide) (.inl h)
  unfold tokens tokensFrom
  rw [hstarts]
  split
  · rename_i hsigns
    obtain ⟨rest, hrest⟩ := List.isPrefixOf_iff_prefix.mp hsigns
    obtain ⟨cs, rfl⟩ : ∃ cs, src = '#' :: cs := ⟨'!' :: rest, hrest.symm⟩
    cases h with
    | @char _ _ _ ds h =>
      have hline (t : Text) : Lexeme.restOfLine ('#' :: t) = Lexeme.restOfLine t + 1 := rfl
      have hagrees : Lexeme.Agrees .lua '#' cs '#' ds (.other, Lexeme.restOfLine cs)
          (.other, Lexeme.restOfLine ds) := (Lexeme.lineCut_restOfLine h).agrees_line
      rw [hline, hline]
      apply List.Forall₂.cons (hagrees.token 1)
      apply respects_lexeme.tokens_alike 1 hagrees.rest
      exact hescape.of_suffix ((List.drop_suffix _ cs).trans (List.suffix_cons '#' cs))
  · exact respects_lexeme.tokens_alike 1 h hescape

end Lua

namespace C

variable {cs ds : Text}

/-- A line comment may take a carriage return along, which is trimmed away. -/
theorem agrees_lineComment (h : Returned [] cs ds) :
    Lexeme.Agrees .c '/' ('/' :: cs) '/' ('/' :: ds) (.comment, Lexeme.restOfLine ('/' :: cs))
      (.comment, Lexeme.restOfLine ('/' :: ds)) := by
  have hline (t : Text) : Lexeme.restOfLine ('/' :: t) = Lexeme.restOfLine t + 1 := rfl
  obtain ⟨-, stop, hstop, hcut⟩ := Lexeme.lineCut_restOfLine h
  rw [hline, hline]
  apply (hcut.char (by decide)).agrees_comment hstop (by decide)
  intro _
  exact commentsAlike_line hstop hcut.taken

/-- A block comment holds whole line ends, and its lines are read without them. -/
theorem agrees_blockComment (h : Returned [] cs ds) :
    Lexeme.Agrees .c '/' ('*' :: cs) '/' ('*' :: ds) (.comment, 1 + Lexeme.through "*/" cs)
      (.comment, 1 + Lexeme.through "*/" ds) := by
  have hcut := Lexeme.cut_through (by decide : "*/".toList ≠ []) (by decide) (by decide) h
  rw [Nat.add_comm 1, Nat.add_comm 1]
  apply (hcut.char (by decide)).agrees_comment (.inl rfl) (by decide)
  intro _
  exact commentsAlike_block hcut.taken

/-- The rule for C agrees on texts that differ in line ends. -/
theorem respects_lexeme : Lexeme.Respects .c lexeme where
  blank := by
    intro c cs hblank
    rw [lexeme, if_pos hblank]
  code := by
    intro c cs ds hblank hc h hescape
    have hslash := SameLines.head?_eq_some_iff (by decide : '/' ≠ '\n') (by decide) (.inl h)
    have hstar := SameLines.head?_eq_some_iff (by decide : '*' ≠ '\n') (by decide) (.inl h)
    unfold lexeme
    rw [hblank]
    simp only [hslash, hstar, Bool.false_eq_true, if_false]
    split
    · rename_i hslashes
      obtain ⟨rfl, hslash⟩ := hslashes
      obtain ⟨rest, rfl⟩ := List.head?_eq_some_iff.mp hslash
      cases h with
      | char _ h => exact agrees_lineComment h
    · split
      · rename_i hopening
        obtain ⟨rfl, hstar⟩ := hopening
        obtain ⟨rest, rfl⟩ := List.head?_eq_some_iff.mp hstar
        cases h with
        | char _ h => exact agrees_blockComment h
      · split
        · rename_i hsign
          subst hsign
          exact (Lexeme.lineCut_restOfLine h).agrees_line
        · exact Lexeme.agrees_code (by decide : ∀ op ∈ operators, _) hc h hescape

end C

/-- Texts that differ in line ends are cut into tokens that are alike, unless a backslash hides a
    line feed in the one and a carriage return in the other. -/
theorem Language.tokens_alike (lang : Language) {src other : Text} (h : Returned [] src other)
    (hescape : EscapesNoFeed src) :
    List.Forall₂ (Token.Alike lang) (lang.tokens src) (lang.tokens other) := by
  cases lang with
  | lua => exact Lua.tokens_alike h hescape
  | c => exact C.respects_lexeme.tokens_alike 1 h hescape

end SourceDoc
