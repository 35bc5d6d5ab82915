import SourceDoc.Proofs.Token.Lossless
import SourceDoc.Proofs.Token.Written

namespace SourceDoc

/-- A token some lines further down. -/
def Token.shift (lines : Nat) (t : Token) : Token :=
  { t with line := t.line + lines }

theorem Token.line_le_endLine (t : Token) : t.line ≤ t.endLine :=
  Nat.le_add_right t.line _

namespace Token.Cuts

variable {line : Nat} {src : Text} {t : Token} {ts : List Token}

/-- What follows a token is cut from the line on which that token ends. -/
theorem tail (h : Cuts line src (t :: ts)) : Cuts t.endLine (ts.flatMap (·.text)) ts where
  nonempty := (List.forall_mem_cons.mp h.nonempty).2
  source := rfl
  lines := by
    intro before u after hts
    have hfirst := h.lines [] t ts rfl
    have hlater := h.lines (t :: before) u after (by rw [hts, List.cons_append])
    rw [hlater, endLine, hfirst, List.flatMap_cons, Text.newlines, Text.newlines, Text.newlines,
      Text.newlines, List.count_append]
    simp only [List.flatMap_nil, List.count_nil]
    omega

/-- Tokens stand in the order of their lines. -/
theorem pairwise (h : Cuts line src ts) : ts.Pairwise fun t u => t.endLine ≤ u.line := by
  induction ts generalizing line src with
  | nil => exact .nil
  | cons t ts ih =>
    refine List.pairwise_cons.mpr ⟨?_, ih h.tail⟩
    intro u hu
    obtain ⟨before, after, hts⟩ := List.append_of_mem hu
    have hline := h.tail.lines before u after hts
    omega

end Token.Cuts

/-- A text that starts further down has the same tokens, as much further down. -/
theorem Lexeme.tokens_add (rule : Lexeme) (line lines : Nat) (src : Text) :
    rule.tokens (line + lines) src = (rule.tokens line src).map (Token.shift lines) := by
  fun_induction tokens rule line src with
  | case1 line => rw [tokens, List.map_nil]
  | case2 line c cs kind more hrule text ih =>
    rw [tokens, hrule, List.map_cons, ← ih, Nat.add_right_comm]
    rfl

/-- The tokens behind a boundary are those of the text behind it. -/
theorem Lexeme.eq_tokens_of_append {rule : Lexeme} {line : Nat} {src : Text}
    {before after : List Token} (h : rule.tokens line src = before ++ after) :
    ∃ line, after = rule.tokens line (after.flatMap (·.text)) := by
  induction before generalizing line src with
  | nil =>
    have hsrc := (cuts_tokens rule line src).source
    rw [List.nil_append] at h
    rw [h] at hsrc
    exact ⟨line, by rw [hsrc, h]⟩
  | cons t before ih =>
    cases src with
    | nil =>
      rw [tokens] at h
      cases h
    | cons c cs =>
      rw [tokens] at h
      exact ih (List.cons_eq_cons.mp h).2

namespace Language

/-- Both languages cut every source from its first line on. -/
theorem cuts_tokens (lang : Language) (src : Text) : Token.Cuts 1 src (lang.tokens src) := by
  cases lang with
  | lua => exact Lua.cuts_tokens src
  | c => exact Lexeme.cuts_tokens C.lexeme 1 src

/-- The same for the tokens of a language; only a line that is set apart at the very start of a
    source is not read by the rule. -/
theorem eq_tokens_of_append {lang : Language} {src : Text} {before after : List Token}
    (h : lang.tokens src = before ++ after)
    (hstart : before = [] → ¬ ("#!" : Text) <+: after.flatMap (·.text)) :
    ∃ line, after = lang.lexeme.tokens line (after.flatMap (·.text)) := by
  cases lang with
  | c =>
    change C.lexeme.tokens 1 src = _ at h
    exact Lexeme.eq_tokens_of_append h
  | lua =>
    have hsource : (before ++ after).flatMap (·.text) = src := h ▸ (Lua.cuts_tokens src).source
    change Lua.tokens src = _ at h
    rw [Lua.tokens] at h
    split at h
    · rename_i hapart
      cases before with
      | nil =>
        rw [List.nil_append] at hsource
        rw [hsource] at hstart
        exact absurd (List.isPrefixOf_iff_prefix.mp hapart) (hstart rfl)
      | cons t before => exact Lexeme.eq_tokens_of_append (List.cons_eq_cons.mp h).2
    · exact Lexeme.eq_tokens_of_append h

/-- A text that the rule reads as some pieces is cut into them at every boundary. -/
theorem eq_placed_of_reads {lang : Language} {src text rest : Text} {before after : List Token}
    {pieces : List Token.Piece} (hhead : text.head? ≠ some '#')
    (hreads : Lexeme.Reads lang.lexeme text pieces rest) (htokens : lang.tokens src = before ++ after)
    (htext : after.flatMap (·.text) = text) :
    ∃ line more, after = Token.placed line pieces ++ more := by
  have hstart : ¬ ("#!" : Text) <+: text := by
    rintro ⟨more, rfl⟩
    exact hhead rfl
  obtain ⟨line, hafter⟩ := eq_tokens_of_append htokens fun _ => by rwa [htext]
  rw [htext, hreads.tokens_eq] at hafter
  exact ⟨line, _, hafter⟩

/-- A text is one token of the given kind wherever a token starts with it. -/
def ReadsAs (lang : Language) (kind : Token.Kind) (text : Text) : Prop :=
  ∀ src before after rest, lang.tokens src = before ++ after →
    after.flatMap (·.text) = text ++ rest → ∃ line more, after = ⟨kind, text, line⟩ :: more

/-- A text that the rule takes whatever follows is one token at every boundary. -/
theorem readsAs_of_reads {lang : Language} {kind : Token.Kind} {c : Char} {cs : Text} (hc : c ≠ '#')
    (h : ∀ rest, Lexeme.Reads lang.lexeme (c :: cs ++ rest) [(kind, c :: cs)] rest) :
    lang.ReadsAs kind (c :: cs) :=
  fun _ _ _ rest htokens htext => eq_placed_of_reads (by simpa using hc) (h rest) htokens htext

end Language

end SourceDoc
