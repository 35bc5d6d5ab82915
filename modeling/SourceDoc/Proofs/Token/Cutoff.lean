import SourceDoc.Proofs.Token.Boundary
import SourceDoc.Proofs.Token.LineEnds

namespace SourceDoc

namespace Text

/-- A text begins as it did before it was cut off, unless the cut goes through that beginning. -/
theorem isPrefixOf_cutoff {start t rest : Text}
    (h : start.isPrefixOf (t ++ rest) = true → start.length ≤ t.length) :
    start.isPrefixOf t = start.isPrefixOf (t ++ rest) := by
  rw [Bool.eq_iff_iff, List.isPrefixOf_iff_prefix, List.isPrefixOf_iff_prefix]
  constructor
  · intro hshort
    exact hshort.trans (List.prefix_append t rest)
  · intro hlong
    exact List.prefix_of_prefix_length_le hlong (List.prefix_append t rest)
      (h (List.isPrefixOf_iff_prefix.mpr hlong))

/-- The first of some texts that a text begins with stays the first. Those before it do not become a
    beginning by the cut, and those behind it do not matter. -/
theorem find?_isPrefixOf_cutoff {starts : List Text} {t rest : Text}
    (h : ∀ start, starts.find? (·.isPrefixOf (t ++ rest)) = some start → start.length ≤ t.length) :
    starts.find? (·.isPrefixOf t) = starts.find? (·.isPrefixOf (t ++ rest)) := by
  induction starts with
  | nil => rfl
  | cons start starts ih =>
    by_cases hlong : start.isPrefixOf (t ++ rest) = true
    · have hlength : start.length ≤ t.length := h start (by rw [List.find?_cons, hlong])
      have hshort : start.isPrefixOf t = true := by rw [isPrefixOf_cutoff fun _ => hlength, hlong]
      rw [List.find?_cons, List.find?_cons, hlong, hshort]
    · have hshort : start.isPrefixOf t = false := by
        rw [isPrefixOf_cutoff fun hstarts => absurd hstarts hlong, Bool.eq_false_iff.mpr hlong]
      rw [Bool.not_eq_true] at hlong
      simp only [List.find?_cons, hlong, hshort] at h ⊢
      exact ih h

end Text

namespace Lexeme

/-- A count that stays the same when the text is cut off behind what it counts. -/
def Settled (count : Text → Nat) : Prop :=
  ∀ cs rest, count (cs ++ rest) ≤ cs.length → count cs = count (cs ++ rest)

/-- A reading that finds the same token when the text is cut off behind it. -/
def StableReading (read : Text → Token.Kind × Nat) : Prop :=
  ∀ cs rest, (read (cs ++ rest)).2 ≤ cs.length → read cs = read (cs ++ rest)

/-- A rule that finds the same token when the text is cut off behind it. A rule looks ahead behind
    the token it finds, but nothing that is missing there makes the token another one. -/
def Stable (rule : Lexeme) : Prop :=
  ∀ c, StableReading (rule c)

theorem settled_run (isMember : Char → Bool) : Settled (run isMember) := by
  intro cs rest h
  unfold run at h ⊢
  rw [List.takeWhile_append] at h ⊢
  split
  · rename_i hall
    rw [if_pos hall, List.length_append] at h
    rw [List.length_append]
    omega
  · rfl

theorem settled_restOfLine : Settled restOfLine :=
  settled_run _

/-- A closing marker is part of what is taken, so a comment that was closed still is. -/
theorem settled_through (close : Text) : Settled (through close) := by
  intro cs rest h
  induction cs with
  | nil =>
    rw [List.nil_append] at h ⊢
    rw [through_nil, Nat.le_zero.mp h]
  | cons c cs ih =>
    rw [List.cons_append, through_cons, List.length_cons] at h
    have hstarts : close.isPrefixOf (c :: cs) = close.isPrefixOf (c :: (cs ++ rest)) := by
      apply Text.isPrefixOf_cutoff
      intro hlong
      rwa [← List.cons_append, if_pos hlong] at h
    rw [List.cons_append, through_cons, through_cons, hstarts]
    split
    · rfl
    · rename_i hnot
      rw [if_neg hnot] at h
      rw [ih (by omega)]

/-- A literal ends before a hidden line feed. -/
theorem quoted_backslash_feed {quote : Char} (hquote : '\\' ≠ quote) (cs : Text) :
    quoted quote ('\\' :: '\n' :: cs) = 0 := by
  simp [quoted, hquote]

/-- A backslash at the cut is not part of the literal; had it hidden a character behind the cut, the
    literal would have gone on there. -/
theorem settled_quoted {quote : Char} (hquote : isQuote quote = true) : Settled (quoted quote) := by
  have hslash : '\\' ≠ quote := ne_of_isQuote hquote (by decide)
  intro cs rest h
  -- a backslash takes two characters at once, so the induction is on the length
  induction hlength : cs.length using Nat.strongRecOn generalizing cs with
  | ind length ih =>
    cases cs with
    | nil =>
      rw [List.nil_append] at h ⊢
      rw [Nat.le_zero.mp h, quoted]
    | cons c cs =>
      rw [List.length_cons] at hlength
      rw [List.cons_append, List.length_cons] at h
      rw [List.cons_append]
      by_cases hc : c = '\\'
      · subst hc
        cases cs with
        | nil =>
          cases rest with
          | nil => rfl
          | cons d rest =>
            have hd : d = '\n' := by
              by_contra hd
              rw [List.nil_append, quoted_escape hslash hd, List.length_nil] at h
              omega
            rw [hd, List.nil_append, quoted_backslash_feed hslash]
            simp [quoted, hslash]
        | cons d cs =>
          rw [List.length_cons] at hlength h
          rw [List.cons_append] at h ⊢
          by_cases hd : d = '\n'
          · rw [hd, quoted_backslash_feed hslash, quoted_backslash_feed hslash]
          · rw [quoted_escape hslash hd] at h
            rw [quoted_escape hslash hd, quoted_escape hslash hd,
              ih cs.length (by omega) cs (by omega) rfl]
      · rw [quoted_cons hc] at h ⊢
        rw [quoted_cons hc]
        split
        · rfl
        · rename_i hopen
          rw [if_neg hopen] at h
          split
          · rfl
          · rename_i hfeed
            rw [if_neg hfeed] at h
            rw [ih cs.length (by omega) cs (by omega) rfl]

/-- An operator is in front of the cut as a whole, and no longer one arises there. -/
theorem settled_operator (operators : List Text) (c : Char) : Settled (operator operators c) := by
  intro cs rest h
  unfold operator at h ⊢
  rw [← List.cons_append] at h ⊢
  rw [Text.find?_isPrefixOf_cutoff]
  intro op hop
  rw [hop] at h
  rw [List.length_cons]
  exact Nat.sub_le_iff_le_add.mp h

theorem Settled.behindFirst {count : Text → Nat} (h : Settled count) :
    Settled fun cs => 1 + count (cs.drop 1) := by
  intro cs rest hle
  cases cs with
  | nil => exact absurd hle (by simp)
  | cons c cs =>
    change 1 + count (cs ++ rest) ≤ cs.length + 1 at hle
    have hcount : count (cs ++ rest) ≤ cs.length := by omega
    exact congrArg (1 + ·) (h cs rest hcount)

theorem Settled.stable {count : Text → Nat} (h : Settled count) (kind : Token.Kind) :
    StableReading fun cs => (kind, count cs) :=
  fun cs rest hle => congrArg (kind, ·) (h cs rest hle)

namespace StableReading

variable {p : Prop} [Decidable p] {first more : Text → Token.Kind × Nat}

/-- Where the cut does not change a test, each branch is stable on its own. -/
theorem ite (hfirst : p → StableReading first) (hmore : ¬ p → StableReading more) :
    StableReading fun cs => if p then first cs else more cs := by
  by_cases hp : p
  · simpa only [if_pos hp] using hfirst hp
  · simpa only [if_neg hp] using hmore hp

/-- A second character that opens a token belongs to it, so that it is before the cut. -/
theorem opened {d : Char} {kind : Token.Kind} {count : Text → Nat} (hcount : Settled count)
    (hopened : ∀ cs, 0 < count (d :: cs)) (hmore : StableReading more) :
    StableReading fun cs => if p ∧ cs.head? = some d then (kind, count cs) else more cs := by
  intro cs rest hle
  dsimp only at hle ⊢
  by_cases hlong : p ∧ (cs ++ rest).head? = some d
  · rw [if_pos hlong] at hle
    have hshort : p ∧ cs.head? = some d := by
      cases cs with
      | nil =>
        obtain ⟨tail, rfl⟩ := List.head?_eq_some_iff.mp hlong.2
        exact absurd hle (Nat.not_le_of_lt (hopened tail))
      | cons e es => exact hlong
    rw [if_pos hlong, if_pos hshort, hcount cs rest hle]
  · rw [if_neg hlong] at hle
    have hshort : ¬ (p ∧ cs.head? = some d) := by
      rintro ⟨hp, hhead⟩
      exact hlong ⟨hp, by rw [List.head?_append, hhead, Option.some_or]⟩
    rw [if_neg hlong, if_neg hshort]
    exact hmore cs rest hle

end StableReading

/-- What both languages share is stable, whatever their operators are. -/
theorem stable_code (operators : List Text) : Stable (code operators) := by
  intro c
  refine .ite (fun hquote => (settled_quoted hquote).stable .str) fun _ => ?_
  refine .ite (fun _ => (settled_run Text.isIdentChar).stable .word) fun _ => ?_
  refine .ite (fun _ => (settled_run isNumberChar).stable .word) fun _ => ?_
  exact (settled_operator operators c).stable .other

variable {rule : Lexeme} {line : Nat} {src : Text} {before after : List Token}

/-- The text before a boundary has the tokens before it. -/
theorem Stable.tokens_before (hstable : Stable rule) (hrange : InRange rule)
    (h : rule.tokens line src = before ++ after) :
    rule.tokens line (before.flatMap (·.text)) = before := by
  induction before generalizing line src with
  | nil => rw [List.flatMap_nil, tokens]
  | cons t before ih =>
    cases src with
    | nil =>
      rw [tokens] at h
      cases h
    | cons c cs =>
      rw [tokens] at h
      obtain ⟨rfl, hmore⟩ := List.cons_eq_cons.mp h
      have hlength : (cs.take (rule c cs).2).length = (rule c cs).2 :=
        List.length_take_of_le (hrange c cs)
      -- what stands behind the first token is cut off somewhere later
      have hrest : before.flatMap (·.text) ++ after.flatMap (·.text) = cs.drop (rule c cs).2 := by
        have hsource := (cuts_tokens rule (line + Text.newlines (c :: cs.take (rule c cs).2))
          (cs.drop (rule c cs).2)).source
        rwa [hmore, List.append_eq, List.flatMap_append] at hsource
      have hcs : cs.take (rule c cs).2 ++ before.flatMap (·.text) ++ after.flatMap (·.text) = cs := by
        rw [List.append_assoc, hrest, List.take_append_drop]
      have hrule : rule c (cs.take (rule c cs).2 ++ before.flatMap (·.text)) = rule c cs := by
        rw [hstable c _ (after.flatMap (·.text)), hcs]
        rw [hcs, List.length_append, hlength]
        exact Nat.le_add_right _ _
      rw [List.flatMap_cons, List.cons_append, tokens, hrule]
      simp only [List.take_left' hlength, List.drop_left' hlength]
      rw [ih hmore]

end Lexeme

namespace Lua

/-- A bracket that is complete stays what it is when more follows. -/
theorem bracketLevel?_append {t : Text} {level : Nat} (h : bracketLevel? t = some level)
    (rest : Text) : bracketLevel? (t ++ rest) = some level := by
  rw [bracketLevel?_eq_some_iff] at h ⊢
  exact h.trans (List.prefix_append t rest)

/-- A bracket is seen from its own characters, if all of them are in front of the cut. -/
theorem bracketLevel?_of_append {t rest : Text} {level : Nat}
    (h : bracketLevel? (t ++ rest) = some level) (hlength : level + 2 ≤ t.length) :
    bracketLevel? t = some level := by
  have hopening : (openingBracket level).length = level + 2 := by simp [openingBracket]
  rw [bracketLevel?_eq_some_iff] at h ⊢
  exact List.prefix_of_prefix_length_le h (List.prefix_append t rest) (hopening ▸ hlength)

theorem bracketLevel?_eq_none_of_append {t rest : Text} (h : bracketLevel? (t ++ rest) = none) :
    bracketLevel? t = none := by
  rw [Option.eq_none_iff_forall_ne_some]
  intro level hlevel
  rw [bracketLevel?_append hlevel rest] at h
  cases h

/-- A long bracket that is closed has its closing marker in front of the cut. -/
theorem settled_longBracket (level : Nat) : Lexeme.Settled (longBracket level) := by
  intro cs rest h
  unfold longBracket at h ⊢
  have hopening : level + 1 ≤ cs.length := Nat.le_trans (Nat.le_add_right _ _) h
  rw [List.drop_append_of_le_length hopening] at h ⊢
  rw [Lexeme.settled_through]
  rw [List.length_drop]
  omega

/-- An opening bracket belongs to the token it makes, so that all of it is before the cut. -/
theorem settled_comment : Lexeme.Settled comment := by
  intro cs rest h
  unfold comment at h ⊢
  cases hlevel : bracketLevel? (cs ++ rest) with
  | some level =>
    simp only [hlevel] at h
    have hopening : level + 2 ≤ cs.length := by
      unfold longBracket at h
      omega
    simp only [bracketLevel?_of_append hlevel hopening]
    exact (settled_longBracket level).behindFirst cs rest h
  | none =>
    simp only [hlevel] at h
    simp only [bracketLevel?_eq_none_of_append hlevel]
    exact Lexeme.settled_restOfLine cs rest h

/-- A long bracket, or what a text has without one. -/
theorem stable_longBracket {more : Text → Token.Kind × Nat} (c : Char)
    (hmore : Lexeme.StableReading more) :
    Lexeme.StableReading fun cs =>
      match bracketLevel? (c :: cs) with
      | some level => (.str, longBracket level cs)
      | none => more cs := by
  intro cs rest h
  dsimp only at h ⊢
  cases hlevel : bracketLevel? (c :: (cs ++ rest)) with
  | some level =>
    simp only [hlevel] at h
    have hopening : level + 2 ≤ (c :: cs).length := by
      unfold longBracket at h
      rw [List.length_cons]
      omega
    have hshort : bracketLevel? (c :: cs) = some level := bracketLevel?_of_append hlevel hopening
    simp only [hshort, settled_longBracket level cs rest h]
  | none =>
    simp only [hlevel] at h
    have hshort : bracketLevel? (c :: cs) = none := bracketLevel?_eq_none_of_append hlevel
    simp only [hshort]
    exact hmore cs rest h

/-- The rule for Lua finds the same tokens in front of a cut. -/
theorem stable_lexeme : Lexeme.Stable lexeme := by
  intro c
  refine .ite (fun _ => (Lexeme.settled_run Text.isBlank).stable .space) fun _ => ?_
  refine .opened settled_comment.behindFirst (fun _ => by omega) ?_
  exact stable_longBracket c (Lexeme.stable_code operators c)

theorem lexeme_numberSign (cs : Text) : lexeme '#' cs = (.other, 0) := by
  rw [lexeme_mark (by decide)]
  simp [Lexeme.operator, operators]

/-- A first line that is set apart ends at the cut if it ended before a line feed there. -/
theorem tokens_before {src : Text} {before after : List Token} (h : tokens src = before ++ after) :
    tokens (before.flatMap (·.text)) = before := by
  have hsource : before.flatMap (·.text) ++ after.flatMap (·.text) = src := by
    rw [← List.flatMap_append, ← h, (cuts_tokens src).source]
  by_cases hapart : ("#!" : Text).isPrefixOf src = true
  · rw [tokens, if_pos hapart] at h
    cases before with
    | nil => simp [tokens, tokensFrom, Lexeme.tokens]
    | cons t before =>
      obtain ⟨rfl, hmore⟩ := List.cons_eq_cons.mp h
      rw [List.flatMap_cons] at hsource ⊢
      dsimp only at hsource ⊢
      have hlength : (src.take (Lexeme.restOfLine src)).length = Lexeme.restOfLine src :=
        List.length_take_of_le (Lexeme.restOfLine_le src)
      have htwo : 2 ≤ Lexeme.restOfLine src := by
        obtain ⟨more, rfl⟩ := List.isPrefixOf_iff_prefix.mp hapart
        simp [Lexeme.restOfLine]
      have hlong : ("#!" : Text).isPrefixOf (src.take (Lexeme.restOfLine src) ++
          before.flatMap (·.text) ++ after.flatMap (·.text)) = true := by rw [hsource, hapart]
      have hstarts : ("#!" : Text).isPrefixOf
          (src.take (Lexeme.restOfLine src) ++ before.flatMap (·.text)) = true := by
        refine (Text.isPrefixOf_cutoff fun _ => ?_).trans hlong
        rw [List.length_append, hlength]
        exact Nat.le_add_right_of_le htwo
      have hline : Lexeme.restOfLine
          (src.take (Lexeme.restOfLine src) ++ before.flatMap (·.text)) = Lexeme.restOfLine src := by
        rw [Lexeme.settled_restOfLine _ (after.flatMap (·.text)), hsource]
        rw [hsource, List.length_append, hlength]
        exact Nat.le_add_right _ _
      rw [tokens, if_pos hstarts, hline]
      simp only [List.take_left' hlength, List.drop_left' hlength]
      rw [tokensFrom, stable_lexeme.tokens_before inRange_lexeme hmore]
  · rw [tokens, if_neg hapart] at h
    have hstarts : ¬ ("#!" : Text).isPrefixOf (before.flatMap (·.text)) = true := by
      rw [List.isPrefixOf_iff_prefix] at hapart ⊢
      intro hshort
      exact hapart (hsource ▸ hshort.trans (List.prefix_append _ _))
    rw [tokens, if_neg hstarts]
    exact stable_lexeme.tokens_before inRange_lexeme h

end Lua

namespace C

/-- The rule for C finds the same tokens in front of a cut. -/
theorem stable_lexeme : Lexeme.Stable lexeme := by
  intro c
  refine .ite (fun _ => (Lexeme.settled_run Text.isBlank).stable .space) fun _ => ?_
  refine .opened Lexeme.settled_restOfLine (fun _ => by simp [Lexeme.restOfLine]) ?_
  refine .opened (Lexeme.settled_through "*/").behindFirst (fun _ => by omega) ?_
  refine .ite (fun _ => Lexeme.settled_restOfLine.stable .other) fun _ => ?_
  exact Lexeme.stable_code operators c

end C

theorem Token.shift_injective (lines : Nat) : Function.Injective (Token.shift lines) := by
  rintro ⟨kind, text, line⟩ ⟨kind', text', line'⟩ h
  simpa [Token.shift] using h

namespace Language

variable {lang : Language} {src : Text} {before after : List Token}

/-- In both languages the text before a boundary has the tokens before it, the line set apart
    included. -/
theorem tokens_before (h : lang.tokens src = before ++ after) :
    lang.tokens (before.flatMap (·.text)) = before := by
  cases lang with
  | lua => exact Lua.tokens_before h
  | c => exact C.stable_lexeme.tokens_before C.inRange_lexeme h

/-- Only a line that is set apart makes a source differ from what the rule reads. -/
theorem tokens_eq_iff :
    lang.tokens src = lang.lexeme.tokens 1 src ↔ (lang = lua → ¬ ("#!" : Text) <+: src) := by
  cases lang with
  | c => simp [tokens, C.tokens, lexeme]
  | lua =>
    change Lua.tokens src = Lua.lexeme.tokens 1 src ↔ _
    rw [Lua.tokens]
    split
    · rename_i hapart
      obtain ⟨more, rfl⟩ := List.isPrefixOf_iff_prefix.mp hapart
      -- the rule makes the number sign a token on its own
      change _ = Lua.lexeme.tokens 1 ('#' :: '!' :: more) ↔ _
      rw [Lexeme.tokens, Lua.lexeme_numberSign]
      simp [Lexeme.restOfLine]
    · rename_i hnot
      rw [List.isPrefixOf_iff_prefix] at hnot
      exact iff_of_true rfl fun _ => hnot

/-- Behind the first boundary all is read by the rule, from the line on which the boundary is. -/
theorem tokens_behind (h : lang.tokens src = before ++ after) (hne : before ≠ []) :
    after = (lang.lexeme.tokens 1 (after.flatMap (·.text))).map
      (Token.shift (Text.newlines (before.flatMap (·.text)))) := by
  obtain ⟨line, hafter⟩ := eq_tokens_of_append h fun hnil => absurd hnil hne
  rw [← Lexeme.tokens_add]
  cases after with
  | nil => rw [List.flatMap_nil, Lexeme.tokens]
  | cons t after =>
    have hline : line = 1 + Text.newlines (before.flatMap (·.text)) := by
      rw [← (cuts_tokens lang src).lines before t after h]
      exact ((Lexeme.cuts_tokens lang.lexeme line _).lines [] t after hafter.symm).symm
    rwa [← hline]

/-- The text of the first tokens of a source. -/
def startOf (lang : Language) (k : Nat) (src : Text) : Text :=
  ((lang.tokens src).take k).flatMap (·.text)

/-- The text behind the first tokens of a source. -/
def restOf (lang : Language) (k : Nat) (src : Text) : Text :=
  src.drop (lang.startOf k src).length

/-- The two parts of a source are the whole source again. -/
theorem startOf_append (lang : Language) (k : Nat) (src : Text) :
    lang.startOf k src ++ ((lang.tokens src).drop k).flatMap (·.text) = src := by
  rw [startOf, ← List.flatMap_append, List.take_append_drop, (cuts_tokens lang src).source]

theorem restOf_eq (lang : Language) (k : Nat) (src : Text) :
    lang.restOf k src = ((lang.tokens src).drop k).flatMap (·.text) := by
  calc lang.restOf k src
      = (lang.startOf k src ++ ((lang.tokens src).drop k).flatMap (·.text)).drop
          (lang.startOf k src).length := by rw [startOf_append, restOf]
    _ = ((lang.tokens src).drop k).flatMap (·.text) := List.drop_left

/-- A source may be cut at every boundary between its tokens. The two parts are the whole source;
    the first one has the tokens before the boundary; and its tokens and those of the second one,
    moved down by the lines of the first, are the tokens of the source, except if the second one
    begins with a line that is set apart at the start of a source. -/
theorem tokens_cut_iff (lang : Language) (src : Text) (k : Nat) :
    lang.startOf k src ++ lang.restOf k src = src ∧
    lang.tokens (lang.startOf k src) = (lang.tokens src).take k ∧
    (lang.tokens src = lang.tokens (lang.startOf k src) ++
        (lang.tokens (lang.restOf k src)).map (Token.shift (Text.newlines (lang.startOf k src))) ↔
      (lang = lua → k = 0 ∨ ¬ ("#!" : Text) <+: lang.restOf k src)) := by
  have hsplit : lang.tokens src = (lang.tokens src).take k ++ (lang.tokens src).drop k :=
    (List.take_append_drop k _).symm
  have hbefore : lang.tokens (lang.startOf k src) = (lang.tokens src).take k := tokens_before hsplit
  refine ⟨by rw [restOf_eq, startOf_append], hbefore, ?_⟩
  by_cases hne : (lang.tokens src).take k = []
  · have hstart : lang.startOf k src = [] := by rw [startOf, hne, List.flatMap_nil]
    have hrest : lang.restOf k src = src := by rw [restOf, hstart, List.length_nil, List.drop_zero]
    rw [hbefore, hne, hstart, hrest]
    refine iff_of_true ?_ fun _ => ?_
    · exact (List.map_id _).symm
    · rcases List.take_eq_nil_iff.mp hne with hk | hempty
      · exact .inl hk
      · have hsrc := (cuts_tokens lang src).source
        rw [hempty, List.flatMap_nil] at hsrc
        exact .inr (by simp [← hsrc])
  · have hk : k ≠ 0 := by
      rintro rfl
      exact hne rfl
    have hbehind := tokens_behind hsplit hne
    rw [← restOf_eq, ← startOf] at hbehind
    calc lang.tokens src = lang.tokens (lang.startOf k src) ++
          (lang.tokens (lang.restOf k src)).map (Token.shift (Text.newlines (lang.startOf k src)))
        ↔ (lang.tokens src).take k ++ (lang.tokens src).drop k = (lang.tokens src).take k ++
          (lang.tokens (lang.restOf k src)).map
            (Token.shift (Text.newlines (lang.startOf k src))) := by rw [← hsplit, hbefore]
      _ ↔ (lang.tokens src).drop k = (lang.tokens (lang.restOf k src)).map
            (Token.shift (Text.newlines (lang.startOf k src))) := List.append_right_inj _
      _ ↔ lang.tokens (lang.restOf k src) = lang.lexeme.tokens 1 (lang.restOf k src) := by
          rw [hbehind, (List.map_injective_iff.mpr (Token.shift_injective _)).eq_iff, eq_comm]
      _ ↔ (lang = lua → ¬ ("#!" : Text) <+: lang.restOf k src) := tokens_eq_iff
      _ ↔ (lang = lua → k = 0 ∨ ¬ ("#!" : Text) <+: lang.restOf k src) := by simp [hk]

/-- Behind a word the two characters are tokens, at the start of a source they set a line apart. -/
example :
    lua.tokens "a#!b" =
      [⟨.word, "a", 1⟩, ⟨.other, "#", 1⟩, ⟨.other, "!", 1⟩, ⟨.word, "b", 1⟩] ∧
    lua.restOf 1 "a#!b" = "#!b".toList ∧ lua.tokens "#!b" = [⟨.other, "#!b", 1⟩] := by
  decide +kernel

end Language

end SourceDoc
