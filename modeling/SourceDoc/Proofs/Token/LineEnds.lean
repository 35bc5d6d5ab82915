import Mathlib.Data.List.Find
import SourceDoc.Proofs.Language.CommentLineEnds

namespace SourceDoc

open Text (EscapesNoFeed IsStop Returned SameLines)

namespace Lexeme

/-- Counts that cut two texts at the same place. What is taken differs in line ends and in what it
    stops with: a token that is cut off by the end of its line takes the carriage return along, and
    every other token holds whole line ends, if any. -/
structure Cut (stop cs ds : Text) (n m : Nat) : Prop where
  taken : Returned stop (cs.take n) (ds.take m)
  rest : Returned [] (cs.drop n) (ds.drop m)

/-- Counts that cut two texts at the same place, on their first line. -/
def LineCut (cs ds : Text) (n m : Nat) : Prop :=
  '\n' ∉ cs.take n ∧ ∃ stop, IsStop stop ∧ Cut stop cs ds n m

/-- Counts that cut the same characters off two texts. -/
structure SameCut (cs ds : Text) (n m : Nat) : Prop where
  taken : ds.take m = cs.take n
  rest : Returned [] (cs.drop n) (ds.drop m)

variable {stop cs ds : Text} {n m : Nat}

theorem Cut.zero (h : Returned [] cs ds) : Cut [] cs ds 0 0 where
  taken := .stop
  rest := h

theorem Cut.char {c : Char} (hc : c ≠ '\r') (h : Cut stop cs ds n m) :
    Cut stop (c :: cs) (c :: ds) (n + 1) (m + 1) where
  taken := .char hc h.taken
  rest := h.rest

/-- A line end that has a carriage return in one text counts one character more there. -/
theorem Cut.feed (h : Cut stop cs ds n m) :
    Cut stop ('\n' :: cs) ('\r' :: '\n' :: ds) (n + 1) (m + 2) where
  taken := .feed h.taken
  rest := h.rest

/-- A cut behind a start that both texts have. -/
theorem Cut.append {s : Text} (hs : '\r' ∉ s) (h : Cut stop cs ds n m) :
    Cut stop (s ++ cs) (s ++ ds) (s.length + n) (s.length + m) := by
  induction s with
  | nil => simpa using h
  | cons c s ih =>
    obtain ⟨hc, hs⟩ := List.ne_and_not_mem_of_not_mem_cons hs
    have hcut := (ih hs).char (Ne.symm hc)
    simpa [Nat.add_right_comm] using hcut

theorem LineCut.zero (h : Returned [] cs ds) : LineCut cs ds 0 0 :=
  ⟨by simp, [], .inl rfl, .zero h⟩

/-- A cut before a line end leaves only the line feed. -/
theorem LineCut.feed (h : Returned [] cs ds) : LineCut ('\n' :: cs) ('\r' :: '\n' :: ds) 0 1 :=
  ⟨by simp, ['\r'], .inr rfl, .stop, .char (by decide) h⟩

theorem LineCut.char {c : Char} (hfeed : c ≠ '\n') (hreturn : c ≠ '\r') (h : LineCut cs ds n m) :
    LineCut (c :: cs) (c :: ds) (n + 1) (m + 1) := by
  obtain ⟨hnot, stop, hstop, hcut⟩ := h
  exact ⟨List.not_mem_cons_of_ne_of_not_mem (Ne.symm hfeed) hnot, stop, hstop, hcut.char hreturn⟩

theorem run_cons (isMember : Char → Bool) (c : Char) (cs : Text) :
    run isMember (c :: cs) = if isMember c then run isMember cs + 1 else 0 := by
  rw [run, List.takeWhile_cons]
  split <;> rfl

/-- A run passes over carriage returns and line feeds alike, so it takes whole line ends or none. -/
theorem cut_run {isMember : Char → Bool} (hends : isMember '\r' = isMember '\n')
    (h : Returned [] cs ds) : Cut [] cs ds (run isMember cs) (run isMember ds) := by
  induction h with
  | stop => exact .zero .stop
  | @char c hc cs ds h ih =>
    rw [run_cons, run_cons]
    split
    · exact ih.char hc
    · exact .zero (.char hc h)
  | @feed cs ds h ih =>
    rw [run_cons, run_cons, run_cons, hends]
    split
    · exact ih.feed
    · exact .zero (.feed h)

/-- The rest of a line takes a carriage return along that belongs to the line end. -/
theorem lineCut_restOfLine (h : Returned [] cs ds) :
    LineCut cs ds (restOfLine cs) (restOfLine ds) := by
  have hrun (t : Text) : restOfLine t = run (· ≠ '\n') t := rfl
  rw [hrun, hrun]
  induction h with
  | stop => exact .zero .stop
  | @char c hc cs ds h ih =>
    rw [run_cons, run_cons]
    by_cases hfeed : c = '\n'
    · rw [if_neg (by simpa using hfeed), if_neg (by simpa using hfeed)]
      exact .zero (.char hc h)
    · rw [if_pos (by simpa using hfeed), if_pos (by simpa using hfeed)]
      exact ih.char hfeed hc
  | feed h _ => exact .feed h

theorem through_nil {close : Text} : through close [] = 0 := by
  unfold through Text.offset?
  split
  · rename_i hsome
    split at hsome
    · rename_i hempty
      cases hsome
      simp [List.isEmpty_iff.mp hempty]
    · cases hsome
  · rfl

theorem through_cons (close : Text) (c : Char) (cs : Text) :
    through close (c :: cs) =
      if close.isPrefixOf (c :: cs) then close.length else through close cs + 1 := by
  rw [through, Text.offset?]
  by_cases hstarts : close.isPrefixOf (c :: cs) = true
  · rw [if_pos hstarts, if_pos hstarts]
    exact Nat.zero_add _
  · rw [if_neg hstarts, if_neg hstarts, through]
    cases Text.offset? close cs with
    | none => rfl
    | some n => exact Nat.add_right_comm n 1 close.length

/-- A marker does not start with a character that is not in it. -/
theorem isPrefixOf_cons_of_not_mem {close : Text} (hne : close ≠ []) {c : Char} (hc : c ∉ close)
    (cs : Text) : close.isPrefixOf (c :: cs) = false := by
  cases close with
  | nil => exact absurd rfl hne
  | cons d close =>
    have hd : d ≠ c := Ne.symm (List.ne_and_not_mem_of_not_mem_cons hc).1
    rw [List.isPrefixOf_cons_cons, beq_false_of_ne hd, Bool.false_and]

/-- A comment is closed at the same place in both texts, or in none, for its marker has no line end
    in it. -/
theorem cut_through {close : Text} (hne : close ≠ []) (hfeed : '\n' ∉ close)
    (hreturn : '\r' ∉ close) (h : Returned [] cs ds) :
    Cut [] cs ds (through close cs) (through close ds) := by
  induction h with
  | stop =>
    rw [through_nil]
    exact .zero .stop
  | @char c hc cs ds h ih =>
    have hwhole : Returned [] (c :: cs) (c :: ds) := .char hc h
    rw [through_cons, through_cons, SameLines.isPrefixOf_eq hfeed hreturn (.inl hwhole)]
    split
    · rename_i hstarts
      obtain ⟨rest, hrest⟩ := List.isPrefixOf_iff_prefix.mp hstarts
      rw [← hrest] at hwhole ⊢
      obtain ⟨more, hmore, hleft⟩ := hwhole.exists_of_append hfeed
      rw [hmore]
      exact (Cut.zero hleft).append hreturn
    · exact ih.char hc
  | @feed cs ds h ih =>
    rw [through_cons, through_cons, through_cons, isPrefixOf_cons_of_not_mem hne hfeed,
      isPrefixOf_cons_of_not_mem hne hreturn, isPrefixOf_cons_of_not_mem hne hfeed]
    exact ih.feed

theorem ne_of_isQuote {quote c : Char} (hquote : isQuote quote = true) (hc : isQuote c = false) :
    c ≠ quote := by
  rintro rfl
  rw [hquote] at hc
  cases hc

theorem quoted_cons {quote c : Char} (hc : c ≠ '\\') (cs : Text) :
    quoted quote (c :: cs) =
      if c = quote then 1 else if c = '\n' then 0 else quoted quote cs + 1 := by
  cases cs with
  | nil => simp [quoted, hc]
  | cons d cs => simp [quoted, hc]

/-- A backslash and what it hides are taken together, unless that is a line feed. -/
theorem quoted_escape {quote : Char} (hquote : '\\' ≠ quote) {d : Char} (hd : d ≠ '\n')
    (cs : Text) : quoted quote ('\\' :: d :: cs) = quoted quote cs + 2 := by
  simp [quoted, hquote, hd]

/-- A quoted literal ends on its line if no backslash hides the line feed. -/
theorem lineCut_quoted {quote : Char} (hquote : isQuote quote = true) (h : Returned [] cs ds)
    (hescape : EscapesNoFeed cs) : LineCut cs ds (quoted quote cs) (quoted quote ds) := by
  have hne {c : Char} : isQuote c = false → c ≠ quote := ne_of_isQuote hquote
  -- a backslash takes two characters at once, so the induction is on the length
  induction hlength : cs.length using Nat.strongRecOn generalizing cs ds with
  | ind length ih =>
    cases h with
    | stop => exact .zero .stop
    | @char c hc cs ds h =>
      rw [List.length_cons] at hlength
      by_cases hslash : c = '\\'
      · subst hslash
        have hslash := hne (by decide : isQuote '\\' = false)
        cases h with
        | stop => simpa [quoted, hslash] using LineCut.zero (.char hc .stop)
        | @char d hd cs ds h =>
          rw [List.length_cons] at hlength
          have hfeed : d ≠ '\n' := by
            rintro rfl
            exact hescape (List.infix_append [] ['\\', '\n'] cs)
          rw [quoted_escape hslash hfeed, quoted_escape hslash hfeed]
          have hrest := ih cs.length (by omega) h
            (hescape.of_suffix (List.suffix_append ['\\', d] cs)) rfl
          exact (hrest.char hfeed hd).char (by decide) hc
        | feed h => exact absurd (List.infix_append [] ['\\', '\n'] _) hescape
      · rw [quoted_cons hslash, quoted_cons hslash]
        have hwhole : Returned [] (c :: cs) (c :: ds) := .char hc h
        split
        · rename_i hclose
          have hfeed : c ≠ '\n' := by
            rw [hclose]
            exact Ne.symm (hne (by decide))
          exact (LineCut.zero h).char hfeed hc
        · split
          · exact .zero hwhole
          · rename_i hfeed
            have hrest := ih cs.length (by omega) h (hescape.of_suffix (List.suffix_cons c cs)) rfl
            exact hrest.char hfeed hc
    | @feed cs ds h =>
      have hzero (t : Text) : quoted quote ('\n' :: t) = 0 := by
        rw [quoted_cons (by decide), if_neg (hne (by decide)), if_pos rfl]
      rw [hzero, quoted_cons (by decide), if_neg (hne (by decide)), if_neg (by decide), hzero]
      exact .feed h

theorem take_run (isMember : Char → Bool) (cs : Text) :
    cs.take (run isMember cs) = cs.takeWhile isMember :=
  (List.prefix_iff_eq_take.mp (List.takeWhile_prefix isMember)).symm

/-- A run of characters of a class without line ends is the same in both texts. -/
theorem sameCut_run {isMember : Char → Bool} (hreturn : isMember '\r' = false)
    (hfeed : isMember '\n' = false) (h : Returned [] cs ds) :
    SameCut cs ds (run isMember cs) (run isMember ds) := by
  have hcut := cut_run (hreturn.trans hfeed.symm) h
  have hnot : '\n' ∉ cs.take (run isMember cs) := by
    rw [take_run]
    intro hmem
    rw [List.all_eq_true.mp List.all_takeWhile _ hmem] at hfeed
    cases hfeed
  exact ⟨by rw [hcut.taken.eq_append hnot, List.append_nil], hcut.rest⟩

/-- Operators have no line ends in them, so the same one is taken from both texts. -/
theorem sameCut_operator {operators : List Text}
    (hends : ∀ op ∈ operators, '\n' ∉ op ∧ '\r' ∉ op) {c : Char}
    (h : Returned [] (c :: cs) (c :: ds)) (hrest : Returned [] cs ds) :
    SameCut cs ds (operator operators c cs) (operator operators c ds) := by
  have hfind : operators.find? (·.isPrefixOf (c :: ds)) =
      operators.find? (·.isPrefixOf (c :: cs)) := by
    apply List.find?_congr
    intro op hop
    obtain ⟨hfeed, hreturn⟩ := hends op hop
    exact SameLines.isPrefixOf_eq hfeed hreturn (.inl h)
  unfold operator
  rw [hfind]
  split
  · rename_i op hop
    obtain ⟨hfeed, hreturn⟩ := hends op (List.mem_of_find?_eq_some hop)
    have hstarts := List.find?_some hop
    obtain ⟨rest, hcs⟩ := List.isPrefixOf_iff_prefix.mp hstarts
    cases op with
    | nil => exact ⟨rfl, hrest⟩
    | cons d op =>
      obtain ⟨rfl, rfl⟩ := List.cons_eq_cons.mp hcs
      obtain ⟨more, rfl, hleft⟩ :=
        hrest.exists_of_append (List.ne_and_not_mem_of_not_mem_cons hfeed).2
      exact ⟨by simp, by simpa using hleft⟩
  · exact ⟨rfl, hrest⟩

end Lexeme

namespace Lua

variable {cs ds : Text}

/-- A long bracket closes at the same place in both texts, or never. -/
theorem cut_longBracket {level : Nat} (h : Returned [] ('[' :: cs) ('[' :: ds))
    (hlevel : bracketLevel? ('[' :: cs) = some level) :
    Lexeme.Cut [] cs ds (longBracket level cs) (longBracket level ds) := by
  obtain ⟨rest, hrest⟩ := bracketLevel?_eq_some_iff.mp hlevel
  rw [openingBracket, List.cons_append, List.cons_eq_cons] at hrest
  obtain ⟨-, rfl⟩ := hrest
  obtain ⟨more, hmore, hleft⟩ := Returned.exists_of_append
    (not_mem_openingBracket (by decide) (by decide) level) h
  rw [openingBracket, List.cons_append, List.cons_eq_cons] at hmore
  obtain ⟨-, rfl⟩ := hmore
  have hcut : Lexeme.Cut [] rest more (Lexeme.through (closingBracket level) rest)
      (Lexeme.through (closingBracket level) more) := by
    apply Lexeme.cut_through _ _ _ hleft <;> simp [closingBracket]
  have hwhole := hcut.append (by simp : '\r' ∉ List.replicate level '=' ++ ['['])
  have hopening : (List.replicate level '=' ++ ['[']).length = level + 1 := by simp
  unfold longBracket
  rw [← hopening, List.drop_left, List.drop_left]
  exact hwhole

/-- A comment is cut at the same place, be it a line comment that takes a return along or one in
    brackets. -/
theorem cut_comment (h : Returned [] cs ds) :
    ∃ stop, IsStop stop ∧ Lexeme.Cut stop cs ds (comment cs) (comment ds) := by
  unfold comment
  rw [bracketLevel?_eq (.inl h)]
  split
  · rename_i level hlevel
    obtain ⟨rest, rfl⟩ := bracketLevel?_eq_some_iff.mp hlevel
    cases h with
    | char hc h =>
      have hcut := cut_longBracket (.char hc h) hlevel
      refine ⟨[], .inl rfl, ?_⟩
      rw [Nat.add_comm, Nat.add_comm 1]
      exact hcut.char hc
  · exact (Lexeme.lineCut_restOfLine h).2

end Lua

end SourceDoc
