import SourceDoc.DocBlock

namespace SourceDoc

/-- A token is a space, a comment or code. -/
theorem Token.space_or_comment_or_code (t : Token) :
    t.kind = .space ∨ t.kind = .comment ∨ t.isCode = true := by
  unfold isCode
  cases t.kind <;> simp

namespace DocBlock

open Declaration (Progress)

section Continuation

variable (lang : Language) (endLine : Nat) {t : Token} (ts : List Token)

theorem continuation_space (ht : t.kind = .space) :
    continuation lang endLine (t :: ts) = continuation lang endLine ts := by
  rw [continuation, ht]

/-- A comment that opens a block of its own ends the one before it and is left for it. -/
theorem continuation_opening (ht : t.kind = .comment) (hopens : lang.opensBlock t.text = true) :
    continuation lang endLine (t :: ts) = ⟨[], endLine, t :: ts⟩ := by
  rw [continuation, ht]
  simp [hopens]

/-- Any other comment adds its text, and the block reaches to where it ends. -/
theorem continuation_comment (ht : t.kind = .comment) (hopens : lang.opensBlock t.text = false) :
    continuation lang endLine (t :: ts) =
      { continuation lang t.endLine ts with
        bodies := lang.body t.text :: (continuation lang t.endLine ts).bodies } := by
  rw [continuation, ht]
  simp [hopens]

theorem continuation_code (ht : t.isCode = true) :
    continuation lang endLine (t :: ts) = ⟨[], endLine, t :: ts⟩ := by
  unfold Token.isCode at ht
  rw [continuation]
  split <;> simp_all

end Continuation

section Lookahead

variable (lang : Language) (state : Progress) (limit : Nat) {t : Token} (ts : List Token)

theorem lookahead_space (ht : t.kind = .space) :
    lookahead lang state limit (t :: ts) = lookahead lang state limit ts := by
  rw [lookahead, ht]

/-- A comment ends the search before a declaration has started, and is passed over inside of one. -/
theorem lookahead_comment (ht : t.kind = .comment) :
    lookahead lang state limit (t :: ts) =
      if state.isAwaiting then (state, t :: ts) else lookahead lang state limit ts := by
  rw [lookahead, ht]

/-- A token of code is one step of the declaration, as long as it may be read. -/
theorem lookahead_code (ht : t.isCode = true) :
    lookahead lang state limit (t :: ts) =
      if (lang.step state t).isDone || limit ≤ 1 then (lang.step state t, ts)
      else lookahead lang (lang.step state t) (limit - 1) ts := by
  unfold Token.isCode at ht
  rw [lookahead]
  split <;> simp_all

end Lookahead

section Later

variable (lang : Language) {t : Token} (ts : List Token)

theorem later_of_not_comment (ht : t.kind ≠ .comment) : later lang (t :: ts) = later lang ts := by
  rw [later, if_neg ht]

/-- Comments that document something give a block, and the search goes on behind what was read for
    it. -/
theorem later_documented (ht : t.kind = .comment)
    (hdoc : documents lang t (opened lang t ts) = true) :
    later lang (t :: ts) = (close lang false t (opened lang t ts)).1 ::
      later lang (close lang false t (opened lang t ts)).2 := by
  rw [later, if_pos ht]
  simp [hdoc]

/-- Comments that document nothing are dropped together. -/
theorem later_plain (ht : t.kind = .comment)
    (hdoc : documents lang t (opened lang t ts) = false) :
    later lang (t :: ts) = later lang (opened lang t ts).rest := by
  rw [later, if_pos ht]
  simp [hdoc]

/-- A doc comment opens a block, whatever follows it. -/
theorem later_doc (ht : t.kind = .comment) (hdoc : lang.isDoc t.text = true) :
    ∃ b bs, later lang (t :: ts) = b :: bs ∧ b.line = t.line ∧ b.isFirst = false ∧
      lang.body t.text <+: b.text := by
  have hdocuments : documents lang t (opened lang t ts) = true := by simp [documents, hdoc]
  refine ⟨_, _, later_documented lang ts ht hdocuments, rfl, rfl, ?_⟩
  change lang.body t.text <+: Text.join "\n" (opened lang t ts).bodies
  rw [opened, Text.join]
  cases (continuation lang t.endLine ts).bodies with
  | nil => simp [List.intercalate]
  | cons body bodies => simp [List.intercalate]

end Later

section OfTokens

/-- Marks the block that the first comment of a file opens. -/
def markFirst : List DocBlock → List DocBlock
  | [] => []
  | b :: bs => { b with isFirst := true } :: bs

/-- Whether a block is the first one depends on the blocks before it alone. -/
theorem markFirst_append_cons (bs : List DocBlock) {b : DocBlock} (hb : b.isFirst = false)
    (more : List DocBlock) :
    markFirst (bs ++ b :: more) = markFirst bs ++ { b with isFirst := bs.isEmpty } :: more := by
  cases bs with
  | nil => rfl
  | cons first bs =>
    obtain ⟨text, line, endLine, declaration, isFirst⟩ := b
    cases hb
    rfl

/-- Whether the first comment among tokens documents something; so if there is no comment. -/
def startsDocumented (lang : Language) : List Token → Bool
  | [] => true
  | t :: ts =>
    if t.kind = .comment then documents lang t (opened lang t ts) else startsDocumented lang ts

/-- A file is read without error exactly if its first comment documents something. -/
theorem ofTokens_eq_ok_iff {lang : Language} {file : Path} {ts : List Token}
    {blocks : List DocBlock} :
    ofTokens lang file ts = .ok blocks ↔
      startsDocumented lang ts = true ∧ blocks = markFirst (later lang ts) := by
  induction ts with
  | nil =>
    rw [later]
    constructor
    · intro h
      cases h
      exact ⟨rfl, rfl⟩
    · rintro ⟨-, rfl⟩
      rfl
  | cons t ts ih =>
    by_cases ht : t.kind = .comment
    · have hdrop : (t :: ts).dropWhile (·.kind ≠ .comment) = t :: ts := by simp [ht]
      rw [ofTokens, hdrop, startsDocumented, if_pos ht]
      dsimp only
      by_cases hdoc : documents lang t (opened lang t ts) = true
      · rw [if_pos hdoc, later_documented lang ts ht hdoc]
        constructor
        · intro h
          cases h
          exact ⟨hdoc, rfl⟩
        · rintro ⟨-, rfl⟩
          rfl
      · rw [if_neg hdoc]
        constructor
        · intro h
          cases h
        · rintro ⟨hdoc', -⟩
          exact absurd hdoc' hdoc
    · have hdrop : (t :: ts).dropWhile (·.kind ≠ .comment) = ts.dropWhile (·.kind ≠ .comment) := by
        simp [ht]
      have hskip : ofTokens lang file (t :: ts) = ofTokens lang file ts := by
        rw [ofTokens, hdrop]
        rfl
      rw [hskip, ih, startsDocumented, if_neg ht, later_of_not_comment lang ts ht]

end OfTokens

end DocBlock

end SourceDoc
