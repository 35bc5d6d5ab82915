import Mathlib.Data.List.TakeWhile
import SourceDoc.Proofs.DocBlock.Basic
import SourceDoc.Proofs.Token.Boundary
import SourceDoc.Proofs.Workspace.Runs

namespace SourceDoc

namespace DocBlock

open Declaration (Progress)

variable (lang : Language)

section Groups

/-- Whether a token between the comments of a block, or behind them, goes on with the block. -/
def continues (t : Token) : Bool :=
  t.kind = .space || t.kind = .comment && !lang.opensBlock t.text

/-- The text of a comment and of the comments that go on with it. -/
def groupText (opening : Token) (ts : List Token) : Text :=
  let comments := (ts.takeWhile (continues lang)).filter (·.kind = .comment)
  Text.join "\n" ((opening :: comments).map fun comment => lang.body comment.text)

/-- The comments that go on with a block are those up to the first token that does not, and the
    block ends where the last of them does. -/
theorem continuation_eq (endLine : Nat) (ts : List Token) :
    continuation lang endLine ts =
      let comments := (ts.takeWhile (continues lang)).filter (·.kind = .comment)
      { bodies := comments.map fun comment => lang.body comment.text
        endLine := (comments.getLast?.map Token.endLine).getD endLine
        rest := ts.dropWhile (continues lang) } := by
  induction ts generalizing endLine with
  | nil => rfl
  | cons t ts ih =>
    rcases t.space_or_comment_or_code with ht | ht | ht
    · have hgoes : continues lang t = true := by simp [continues, ht]
      rw [continuation_space lang endLine ts ht, ih, List.takeWhile_cons_of_pos hgoes,
        List.dropWhile_cons_of_pos hgoes, List.filter_cons_of_neg (by simp [ht])]
    · cases hopens : lang.opensBlock t.text with
      | true =>
        have hends : ¬continues lang t = true := by simp [continues, ht, hopens]
        rw [continuation_opening lang endLine ts ht hopens, List.takeWhile_cons_of_neg hends,
          List.dropWhile_cons_of_neg hends]
        rfl
      | false =>
        have hgoes : continues lang t = true := by simp [continues, ht, hopens]
        rw [continuation_comment lang endLine ts ht hopens, ih, List.takeWhile_cons_of_pos hgoes,
          List.dropWhile_cons_of_pos hgoes, List.filter_cons_of_pos (by simp [ht])]
        simp only [List.map_cons, List.getLast?_cons, Option.map_some, Option.getD_some]
        cases ((ts.takeWhile (continues lang)).filter (·.kind = .comment)).getLast? <;> rfl
    · have hends : ¬continues lang t = true := by
        rw [Token.isCode] at ht
        cases hkind : t.kind <;> simp_all [continues]
      rw [continuation_code lang endLine ts ht, List.takeWhile_cons_of_neg hends,
        List.dropWhile_cons_of_neg hends]
      rfl

/-- The text of a block is said here by the tokens that go on with it, without the loop that groups
    them. -/
theorem text_opened (t : Token) (ts : List Token) :
    (opened lang t ts).text = groupText lang t ts := by
  rw [Comments.text, opened, groupText, continuation_eq, List.map_cons]

end Groups

section Order

variable {lang} {t : Token} {ts : List Token}

theorem rest_continuation_suffix (endLine : Nat) (ts : List Token) :
    (continuation lang endLine ts).rest <:+ ts := by
  rw [continuation_eq]
  exact List.dropWhile_suffix (continues lang)

theorem lookahead_suffix (state : Progress) (limit : Nat) (ts : List Token) :
    (lookahead lang state limit ts).2 <:+ ts := by
  induction ts generalizing state limit with
  | nil => exact List.suffix_rfl
  | cons t ts ih =>
    rcases t.space_or_comment_or_code with ht | ht | ht
    · rw [lookahead_space lang state limit ts ht]
      exact (ih state limit).trans (List.suffix_cons t ts)
    · rw [lookahead_comment lang state limit ts ht]
      split
      · exact List.suffix_rfl
      · exact (ih state limit).trans (List.suffix_cons t ts)
    · rw [lookahead_code lang state limit ts ht]
      split
      · exact List.suffix_cons t ts
      · exact (ih _ _).trans (List.suffix_cons t ts)

/-- The last of the comments that go on with a block ends behind all others and before what is
    left. -/
theorem endLine_continuation (lang : Language) {endLine : Nat} (hstart : ∀ u ∈ ts, endLine ≤ u.line)
    (hts : ts.Pairwise fun t u => t.endLine ≤ u.line) :
    endLine ≤ (continuation lang endLine ts).endLine ∧
      ∀ u ∈ (continuation lang endLine ts).rest,
        (continuation lang endLine ts).endLine ≤ u.line := by
  induction ts generalizing endLine with
  | nil => exact ⟨Nat.le_refl _, by simp [continuation]⟩
  | cons t ts ih =>
    obtain ⟨hbehind, hrest⟩ := List.pairwise_cons.mp hts
    obtain ⟨hfirst, hothers⟩ := List.forall_mem_cons.mp hstart
    rcases t.space_or_comment_or_code with ht | ht | ht
    · rw [continuation_space lang endLine ts ht]
      exact ih hothers hrest
    · cases hopens : lang.opensBlock t.text with
      | true =>
        rw [continuation_opening lang endLine ts ht hopens]
        exact ⟨Nat.le_refl _, hstart⟩
      | false =>
        rw [continuation_comment lang endLine ts ht hopens]
        obtain ⟨hle, hleft⟩ := ih hbehind hrest
        exact ⟨hfirst.trans (t.line_le_endLine.trans hle), hleft⟩
    · rw [continuation_code lang endLine ts ht]
      exact ⟨Nat.le_refl _, hstart⟩

/-- Every later block starts on the line of a token, and none of them counts as the first. -/
theorem exists_token_of_mem_later {b : DocBlock} (hb : b ∈ later lang ts) :
    b.isFirst = false ∧ ∃ t ∈ ts, t.line = b.line := by
  induction ts using later.induct lang with
  | case1 =>
    rw [later] at hb
    cases hb
  | case2 t ts ht comments hdoc ih =>
    rw [later_documented lang ts ht hdoc] at hb
    rcases List.mem_cons.mp hb with rfl | hb
    · exact ⟨rfl, t, List.mem_cons_self, rfl⟩
    · obtain ⟨hfirst, u, hu, hline⟩ := ih hb
      have hleft := (lookahead_suffix .start declarationLimit comments.rest).mem hu
      have hts := (rest_continuation_suffix t.endLine ts).mem hleft
      exact ⟨hfirst, u, List.mem_cons_of_mem t hts, hline⟩
  | case3 t ts ht comments hdoc ih =>
    rw [later_plain lang ts ht (by simpa using hdoc)] at hb
    obtain ⟨hfirst, u, hu, hline⟩ := ih hb
    have hts := (rest_continuation_suffix t.endLine ts).mem hu
    exact ⟨hfirst, u, List.mem_cons_of_mem t hts, hline⟩
  | case4 t ts ht ih =>
    rw [later_of_not_comment lang ts ht] at hb
    obtain ⟨hfirst, u, hu, hline⟩ := ih hb
    exact ⟨hfirst, u, List.mem_cons_of_mem t hu, hline⟩

/-- Blocks that end on no line before they start, and start on no line before those in front of them
    end. -/
structure InOrder (blocks : List DocBlock) : Prop where
  line_le : ∀ b ∈ blocks, b.line ≤ b.endLine
  pairwise : blocks.Pairwise fun b next => b.endLine ≤ next.line

theorem InOrder.markFirst {blocks : List DocBlock} (h : InOrder blocks) :
    InOrder (markFirst blocks) := by
  cases blocks with
  | nil => exact h
  | cons b bs =>
    obtain ⟨hb, hbs⟩ := List.forall_mem_cons.mp h.line_le
    obtain ⟨hbehind, hrest⟩ := List.pairwise_cons.mp h.pairwise
    exact ⟨List.forall_mem_cons.mpr ⟨hb, hbs⟩, List.pairwise_cons.mpr ⟨hbehind, hrest⟩⟩

/-- Blocks stand in the order of the tokens they were read from. -/
theorem inOrder_later (hts : ts.Pairwise fun t u => t.endLine ≤ u.line) :
    InOrder (later lang ts) := by
  induction ts using later.induct lang with
  | case1 =>
    rw [later]
    exact ⟨by simp, .nil⟩
  | case2 t ts ht comments hdoc ih =>
    obtain ⟨hbehind, hrest⟩ := List.pairwise_cons.mp hts
    obtain ⟨hend, hleft⟩ := endLine_continuation lang hbehind hrest
    have hclose : (close lang false t comments).2 <:+ comments.rest :=
      lookahead_suffix .start declarationLimit comments.rest
    have hsuffix := hclose.trans (rest_continuation_suffix t.endLine ts)
    have hlater := ih (hrest.sublist hsuffix.sublist)
    rw [later_documented lang ts ht hdoc]
    refine ⟨List.forall_mem_cons.mpr ⟨?_, hlater.line_le⟩,
      List.pairwise_cons.mpr ⟨?_, hlater.pairwise⟩⟩
    · exact t.line_le_endLine.trans hend
    · intro next hnext
      obtain ⟨-, u, hu, hline⟩ := exists_token_of_mem_later hnext
      exact hline ▸ hleft u (hclose.mem hu)
  | case3 t ts ht comments hdoc ih =>
    obtain ⟨-, hrest⟩ := List.pairwise_cons.mp hts
    rw [later_plain lang ts ht (by simpa using hdoc)]
    exact ih (hrest.sublist (rest_continuation_suffix t.endLine ts).sublist)
  | case4 t ts ht ih =>
    rw [later_of_not_comment lang ts ht]
    exact ih (List.pairwise_cons.mp hts).2

/-- All blocks of a file stand in order, the first one included. -/
theorem inOrder_scan {file : Path} {src : Text} {blocks : List DocBlock}
    (h : scan lang file src = .ok blocks) : InOrder blocks := by
  obtain ⟨-, rfl⟩ := ofTokens_eq_ok_iff.mp h
  exact (inOrder_later (lang.cuts_tokens src).pairwise).markFirst

end Order

section First

variable {lang} (file : Path) {src : Text}

/-- A file without comments is read, and has no blocks. -/
theorem scan_of_no_comment (h : ∀ t ∈ lang.tokens src, t.kind ≠ .comment) :
    scan lang file src = .ok [] := by
  have hdrop : (lang.tokens src).dropWhile (·.kind ≠ .comment) = [] :=
    List.dropWhile_eq_nil_iff.mpr (by simpa using h)
  rw [scan, ofTokens, hdrop]

/-- What a file is read as is decided at its first comment. -/
theorem scan_of_first_comment {before after : List Token} {c : Token}
    (htokens : lang.tokens src = before ++ c :: after)
    (hbefore : ∀ t ∈ before, t.kind ≠ .comment) (hc : c.kind = .comment) :
    scan lang file src =
      if lang.isDoc c.text || TagLine.occursIn (groupText lang c after) then
        .ok ((close lang true c (opened lang c after)).1 ::
          later lang (close lang true c (opened lang c after)).2)
      else .error (.plainFirstComment file c.line) := by
  have hdrop : (lang.tokens src).dropWhile (·.kind ≠ .comment) = c :: after := by
    rw [htokens, List.dropWhile_append_of_pos (by simpa using hbefore),
      List.dropWhile_cons_of_neg (by simp [hc])]
  rw [scan, ofTokens, hdrop, ← text_opened, ← documents]

end First

end DocBlock

namespace Workspace

open DocBlock

/-- A file that can not be scanned leaves the workspace as it was. -/
theorem addFile_of_scan_eq_error {w : Workspace} {path : Path} {src : Text} {lang : Language}
    {e : Failure} (hlang : w.languages.ofPath? path = some lang)
    (hscan : scan lang path src = .error e) :
    w.addFile path src = .error e ∧ w.perform (.scan path src) = w := by
  have hfails : w.addFile path src = .error e := by
    rw [addFile, scanFile, hlang]
    simp only [hscan]
    rfl
  refine ⟨hfails, ?_⟩
  rw [perform, hfails]
  rfl

/-- A file is refused exactly if its first comment, with those that go on with it, documents
    nothing; then no file is added to a workspace. Otherwise the first comment opens the first
    block, and no other block counts as the first. Blocks stand in the order of their lines. -/
theorem scan_first_comment (lang : Language) (path : Path) (src : Text) :
    ((∀ t ∈ lang.tokens src, t.kind ≠ .comment) → scan lang path src = .ok []) ∧
    (∀ before c after, lang.tokens src = before ++ c :: after →
      (∀ t ∈ before, t.kind ≠ .comment) → c.kind = .comment →
      (lang.isDoc c.text = false ∧ TagLine.occursIn (groupText lang c after) = false →
        scan lang path src = .error (.plainFirstComment path c.line) ∧
        ∀ w : Workspace, w.languages.ofPath? path = some lang →
          w.addFile path src = .error (.plainFirstComment path c.line) ∧
          w.perform (.scan path src) = w) ∧
      (lang.isDoc c.text = true ∨ TagLine.occursIn (groupText lang c after) = true →
        ∃ b others, scan lang path src = .ok (b :: others) ∧ b.line = c.line ∧
          b.text = groupText lang c after ∧ b.isFirst = true ∧
          ∀ other ∈ others, other.isFirst = false)) ∧
    ∀ blocks, scan lang path src = .ok blocks →
      (∀ b ∈ blocks, b.line ≤ b.endLine) ∧
      blocks.Pairwise fun b next => b.endLine ≤ next.line := by
  refine ⟨scan_of_no_comment path, ?_, ?_⟩
  · intro before c after htokens hbefore hc
    have hscan := scan_of_first_comment path htokens hbefore hc
    refine ⟨?_, ?_⟩
    · rintro ⟨hplain, htagless⟩
      rw [hplain, htagless, Bool.or_self, if_neg Bool.false_ne_true] at hscan
      exact ⟨hscan, fun w hlang => addFile_of_scan_eq_error hlang hscan⟩
    · intro hdoc
      rw [if_pos (Bool.or_eq_true_iff.mpr hdoc)] at hscan
      refine ⟨_, _, hscan, rfl, text_opened lang c after, rfl, ?_⟩
      intro other hother
      exact (exists_token_of_mem_later hother).1
  · intro blocks hblocks
    have horder := inOrder_scan hblocks
    exact ⟨horder.line_le, horder.pairwise⟩

/-- A source whose first comment is an ordinary one, with a long comment that goes on with it. -/
def plainFirst : Text :=
  "x()\n-- plain\n--[[ more ]]\n--- B\n"

/-- A source whose first comment is an ordinary one, but has a tag in the comment that goes on. -/
def taggedFirst : Text :=
  "x()\n-- Utilities.\n\n-- @module util\nlocal y -- note\n--- B\n"

theorem scan_first_comment_plain_and_tagged :
    (scan .lua ⟨"m.lua"⟩ plainFirst = .error (.plainFirstComment ⟨"m.lua"⟩ 2) ∧
      ({} : Workspace).perform (.scan ⟨"m.lua"⟩ plainFirst) = {}) ∧
    ∃ b others, scan .lua ⟨"m.lua"⟩ taggedFirst = .ok (b :: others) ∧ b.line = 2 ∧
      b.text = ("Utilities.\n@module util" : Text) ∧ b.isFirst = true ∧
      (∀ other ∈ others, other.isFirst = false) ∧ ∀ other ∈ others, b.endLine ≤ other.line := by
  have hplain : Language.lua.tokens plainFirst = (Lua.tokens plainFirst).take 4 ++
      ⟨.comment, "-- plain", 2⟩ :: (Lua.tokens plainFirst).drop 5 := by decide +kernel
  have htagged : Language.lua.tokens taggedFirst = (Lua.tokens taggedFirst).take 4 ++
      ⟨.comment, "-- Utilities.", 2⟩ :: (Lua.tokens taggedFirst).drop 5 := by decide +kernel
  have hgroup : groupText .lua ⟨.comment, "-- Utilities.", 2⟩ ((Lua.tokens taggedFirst).drop 5) =
      "Utilities.\n@module util" := by decide +kernel
  refine ⟨?_, ?_⟩
  · obtain ⟨hrefused, -⟩ := (scan_first_comment .lua ⟨"m.lua"⟩ plainFirst).2.1 _ _ _ hplain
      (by decide +kernel) rfl
    obtain ⟨herror, hkept⟩ := hrefused ⟨by decide, by decide +kernel⟩
    exact ⟨herror, (hkept {} (by decide)).2⟩
  · obtain ⟨-, hfirst, horder⟩ := scan_first_comment .lua ⟨"m.lua"⟩ taggedFirst
    obtain ⟨b, others, hscan, hline, htext, hb, hothers⟩ :=
      (hfirst _ _ _ htagged (by decide +kernel) rfl).2 (.inr (by decide +kernel))
    refine ⟨b, others, hscan, hline, htext.trans hgroup, hb, hothers, ?_⟩
    exact (List.pairwise_cons.mp (horder _ hscan).2).1

end Workspace

end SourceDoc
