import SourceDoc.Language.Basic

namespace SourceDoc

/-- Tokens that cut a text which starts on the given line. -/
structure Token.Cuts (line : Nat) (src : Text) (ts : List Token) : Prop where
  nonempty : ∀ t ∈ ts, t.text ≠ []
  source : ts.flatMap (·.text) = src
  lines : ∀ before t after, ts = before ++ t :: after →
    t.line = line + Text.newlines (before.flatMap (·.text))

namespace Token

theorem Cuts.nil (line : Nat) : Cuts line [] [] where
  nonempty := fun t ht => absurd ht List.not_mem_nil
  source := rfl
  lines := fun before t after h => by simp at h

/-- Putting a token before tokens that go on where it ends. -/
theorem Cuts.cons {line : Nat} {src rest : Text} {t : Token} {ts : List Token} (hne : t.text ≠ [])
    (hline : t.line = line) (hsrc : t.text ++ rest = src) (hrest : Cuts t.endLine rest ts) :
    Cuts line src (t :: ts) where
  nonempty := List.forall_mem_cons.mpr ⟨hne, hrest.nonempty⟩
  source := by rw [List.flatMap_cons, hrest.source, hsrc]
  lines := by
    intro before u after h
    cases before with
    | nil =>
      obtain ⟨rfl, -⟩ := List.cons_eq_cons.mp h
      exact hline
    | cons first before =>
      obtain ⟨rfl, htail⟩ := List.cons_eq_cons.mp h
      rw [hrest.lines before u after htail, endLine, hline, List.flatMap_cons, Text.newlines,
        Text.newlines, Text.newlines, List.count_append, Nat.add_assoc]

/-- The line a token ends on counts the line feeds of its own text, too. -/
theorem Cuts.endLine_eq {line : Nat} {src : Text} {ts : List Token} (hcuts : Cuts line src ts)
    {before after : List Token} {t : Token} (h : ts = before ++ t :: after) :
    t.endLine = line + Text.newlines (before.flatMap (·.text) ++ t.text) := by
  rw [endLine, hcuts.lines before t after h, Text.newlines, Text.newlines, Text.newlines,
    List.count_append, Nat.add_assoc]

end Token

namespace Lexeme

/-- Whatever a rule counts, its tokens cut the text. -/
theorem cuts_tokens (rule : Lexeme) (line : Nat) (src : Text) :
    Token.Cuts line src (rule.tokens line src) := by
  fun_induction tokens rule line src with
  | case1 line => exact Token.Cuts.nil line
  | case2 line c cs kind more hrule text ih =>
    have hsrc : text ++ cs.drop more = c :: cs := by simp [text]
    exact Token.Cuts.cons (List.cons_ne_nil c _) rfl hsrc ih

/-- A rule that counts only characters which are there. For such rules cutting a text into tokens
    loses nothing. -/
def InRange (rule : Lexeme) : Prop :=
  ∀ c cs, (rule c cs).2 ≤ cs.length

theorem run_le (isMember : Char → Bool) (cs : Text) : run isMember cs ≤ cs.length :=
  (List.takeWhile_sublist isMember).length_le

theorem restOfLine_le (cs : Text) : restOfLine cs ≤ cs.length :=
  (List.takeWhile_sublist _).length_le

theorem offset?_add_length_le {needle cs : Text} {n : Nat} (h : Text.offset? needle cs = some n) :
    n + needle.length ≤ cs.length := by
  induction cs generalizing n with
  | nil =>
    unfold Text.offset? at h
    split at h
    · rename_i hempty
      cases h
      simp [List.isEmpty_iff.mp hempty]
    · cases h
  | cons c cs ih =>
    unfold Text.offset? at h
    split at h
    · rename_i hprefix
      cases h
      have hle := (List.isPrefixOf_iff_prefix.mp hprefix).length_le
      omega
    · obtain ⟨m, hm, rfl⟩ := Option.map_eq_some_iff.mp h
      have hle := ih hm
      rw [List.length_cons]
      omega

/-- A comment that is not closed is counted to the end of the text and not beyond. -/
theorem through_le (close cs : Text) : through close cs ≤ cs.length := by
  unfold through
  split
  · rename_i n hn
    exact offset?_add_length_le hn
  · exact Nat.le_refl _

/-- A literal that is not closed ends before its line does or with the text, also if the text ends
    in a backslash. -/
theorem quoted_le (quote : Char) (cs : Text) : quoted quote cs ≤ cs.length := by
  fun_induction quoted quote cs with
  | case7 d cs hd hquote ih =>
    -- a backslash takes the character behind it along
    rw [List.length_cons, List.length_cons]
    omega
  | case9 c d cs hquote hescape hfeed ih =>
    rw [List.length_cons]
    omega
  | _ => simp

/-- An operator is tried only if all of its characters are there. -/
theorem operator_le (operators : List Text) (c : Char) (cs : Text) :
    operator operators c cs ≤ cs.length := by
  unfold operator
  split
  · rename_i op hop
    have hprefix := List.find?_some hop
    have hle := (List.isPrefixOf_iff_prefix.mp hprefix).length_le
    rw [List.length_cons] at hle
    omega
  · exact Nat.zero_le _

/-- What both languages share counts only what is there, whatever their operators are. -/
theorem inRange_code (operators : List Text) : InRange (code operators) := by
  intro c cs
  unfold code
  split
  · exact quoted_le c cs
  · split
    · exact run_le _ cs
    · split
      · exact run_le _ cs
      · exact operator_le operators c cs

end Lexeme

namespace Lua

/-- A long bracket of a level opens with that many equals signs between two square brackets. -/
theorem eq_of_bracketLevel? {t : Text} {level : Nat} (h : bracketLevel? t = some level) :
    ∃ rest, t = '[' :: (List.replicate level '=' ++ '[' :: rest) := by
  unfold bracketLevel? at h
  split at h
  · rename_i cs
    dsimp only at h
    split at h
    · rename_i hhead
      cases h
      have htake : cs.takeWhile (· == '=') = cs.take (Lexeme.run (· == '=') cs) :=
        List.prefix_iff_eq_take.mp (List.takeWhile_prefix _)
      have hsigns : cs.take (Lexeme.run (· == '=') cs) =
          List.replicate (Lexeme.run (· == '=') cs) '=' := by
        rw [← htake, List.eq_replicate_iff]
        refine ⟨rfl, ?_⟩
        intro c hc
        simpa using List.all_eq_true.mp List.all_takeWhile c hc
      obtain ⟨rest, hrest⟩ := List.head?_eq_some_iff.mp hhead
      exact ⟨rest, by rw [← hrest, ← hsigns, List.take_append_drop]⟩
    · cases h
  · cases h

theorem longBracket_le {level : Nat} {cs : Text} (h : level + 1 ≤ cs.length) :
    longBracket level cs ≤ cs.length := by
  have hclose := Lexeme.through_le (closingBracket level) (cs.drop (level + 1))
  rw [List.length_drop] at hclose
  unfold longBracket
  omega

theorem comment_le (cs : Text) : comment cs ≤ cs.length := by
  unfold comment
  split
  · rename_i level hlevel
    obtain ⟨rest, rfl⟩ := eq_of_bracketLevel? hlevel
    have hbracket : longBracket level (List.replicate level '=' ++ '[' :: rest) ≤
        (List.replicate level '=' ++ '[' :: rest).length := longBracket_le (by simp)
    simp only [List.drop_succ_cons, List.drop_zero, List.length_cons]
    omega
  · exact Lexeme.restOfLine_le cs

/-- No rule for Lua counts more than there is. -/
theorem inRange_lexeme : Lexeme.InRange lexeme := by
  intro c cs
  unfold lexeme
  split
  · exact Lexeme.run_le _ cs
  · split
    · rename_i hdashes
      obtain ⟨rest, rfl⟩ := List.head?_eq_some_iff.mp hdashes.2
      have hcomment := comment_le rest
      simp only [List.drop_succ_cons, List.drop_zero, List.length_cons]
      omega
    · split
      · rename_i level hlevel
        obtain ⟨rest, hrest⟩ := eq_of_bracketLevel? hlevel
        obtain ⟨-, rfl⟩ := List.cons_eq_cons.mp hrest
        exact longBracket_le (by simp)
      · exact Lexeme.inRange_code operators c cs

/-- The rest of the text starts on line 1 even after a line set apart, which holds no line feed. -/
theorem cuts_tokens (src : Text) : Token.Cuts 1 src (tokens src) := by
  unfold tokens
  split
  · rename_i hshebang
    obtain ⟨rest, hrest⟩ := List.isPrefixOf_iff_prefix.mp hshebang
    have hline : src.take (Lexeme.restOfLine src) = src.takeWhile (· ≠ '\n') :=
      (List.prefix_iff_eq_take.mp (List.takeWhile_prefix _)).symm
    have hne : src.takeWhile (· ≠ '\n') ≠ [] := by
      rw [← hrest]
      simp
    have hnewlines : Text.newlines (src.takeWhile (· ≠ '\n')) = 0 := by
      rw [Text.newlines, List.count_eq_zero]
      intro hmem
      simpa using List.all_eq_true.mp List.all_takeWhile _ hmem
    apply Token.Cuts.cons
    · rw [hline]
      exact hne
    · rfl
    · exact List.take_append_drop (Lexeme.restOfLine src) src
    · rw [Token.endLine, hline, hnewlines]
      exact Lexeme.cuts_tokens lexeme 1 _
  · exact Lexeme.cuts_tokens lexeme 1 src

end Lua

namespace C

/-- No rule for C counts more than there is. -/
theorem inRange_lexeme : Lexeme.InRange lexeme := by
  intro c cs
  unfold lexeme
  split
  · exact Lexeme.run_le _ cs
  · split
    · exact Lexeme.restOfLine_le cs
    · split
      · rename_i hopen
        obtain ⟨rest, rfl⟩ := List.head?_eq_some_iff.mp hopen.2
        have hclose := Lexeme.through_le "*/" rest
        simp only [List.drop_succ_cons, List.drop_zero, List.length_cons]
        omega
      · split
        · exact Lexeme.restOfLine_le cs
        · exact Lexeme.inRange_code operators c cs

end C

namespace Language

/-- The rule for the tokens of a language. -/
def lexeme : Language → Lexeme
  | .lua => Lua.lexeme
  | .c => C.lexeme

/-- Tokens lose nothing. At every place a token takes at least one character and no more than there
    are; the texts of the tokens one after the other are the source; and the lines of a token count
    the line feeds before it and in it. -/
theorem tokens_lossless (lang : Language) (src : Text) :
    (∀ c cs, (lang.lexeme c cs).2 ≤ cs.length) ∧
      (∀ t ∈ lang.tokens src, t.text ≠ []) ∧
      (lang.tokens src).flatMap (·.text) = src ∧
      ∀ before t after, lang.tokens src = before ++ t :: after →
        t.line = 1 + Text.newlines (before.flatMap (·.text)) ∧
        t.endLine = 1 + Text.newlines (before.flatMap (·.text) ++ t.text) := by
  have hrange : Lexeme.InRange lang.lexeme := by
    cases lang with
    | lua => exact Lua.inRange_lexeme
    | c => exact C.inRange_lexeme
  have hcuts : Token.Cuts 1 src (lang.tokens src) := by
    cases lang with
    | lua => exact Lua.cuts_tokens src
    | c => exact Lexeme.cuts_tokens C.lexeme 1 src
  refine ⟨hrange, hcuts.nonempty, hcuts.source, ?_⟩
  intro before t after h
  exact ⟨hcuts.lines before t after h, hcuts.endLine_eq h⟩

end Language

end SourceDoc
