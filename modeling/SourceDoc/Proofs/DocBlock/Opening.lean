import SourceDoc.Proofs.DocBlock.Basic

namespace SourceDoc.DocBlock

open Declaration (Progress Draft)

/-- The search for a declaration carried on to the end of tokens: the state it is in there and the
    number of tokens it may still read; `none` if it ends before. -/
def searchThrough (lang : Language) (state : Progress) (limit : Nat) :
    List Token → Option (Progress × Nat)
  | [] => some (state, limit)
  | t :: ts =>
    match t.kind with
    | .space => searchThrough lang state limit ts
    | .comment => if state.isAwaiting then none else searchThrough lang state limit ts
    | _ =>
      let next := lang.step state t
      if next.isDone || limit ≤ 1 then none else searchThrough lang next (limit - 1) ts

/-- The declaration that is being read where tokens end; `none` if the search for one has not begun
    to read it, is over, or is not going on at all. -/
def openDraft? (lang : Language) : List Token → Option Draft
  | [] => none
  | t :: ts =>
    if t.kind = .comment then
      let comments := opened lang t ts
      if documents lang t comments then
        match searchThrough lang .start declarationLimit comments.rest with
        | some (.reading d, _) => some d
        | some _ => none
        | none => openDraft? lang (close lang false t comments).2
      else openDraft? lang comments.rest
    else openDraft? lang ts
termination_by ts => ts.length
decreasing_by
  · exact Nat.lt_succ_of_le
      (Nat.le_trans (length_close_le lang false t _) (length_opened_le lang t ts))
  · exact Nat.lt_succ_of_le (length_opened_le lang t ts)
  · exact Nat.lt_succ_self _

/-- The comments that are still being grouped where tokens end: the comment that opens them and all
    tokens behind it; `none` if the last comments have been ended by some token or there are
    none. -/
def openGroup? (lang : Language) : List Token → Option (Token × List Token)
  | [] => none
  | t :: ts =>
    if t.kind = .comment then
      let comments := opened lang t ts
      if comments.rest.isEmpty then some (t, ts)
      else if documents lang t comments then openGroup? lang (close lang false t comments).2
      else openGroup? lang comments.rest
    else openGroup? lang ts
termination_by ts => ts.length
decreasing_by
  · exact Nat.lt_succ_of_le
      (Nat.le_trans (length_close_le lang false t _) (length_opened_le lang t ts))
  · exact Nat.lt_succ_of_le (length_opened_le lang t ts)
  · exact Nat.lt_succ_self _

section Search

variable {lang : Language} {state state' : Progress} {limit limit' : Nat} {t : Token}
  {ts : List Token}

theorem searchThrough_space (ht : t.kind = .space) :
    searchThrough lang state limit (t :: ts) = searchThrough lang state limit ts := by
  rw [searchThrough, ht]

/-- A comment before a declaration has started ends the search, and it does not reach the end of the
    tokens. -/
theorem searchThrough_comment (ht : t.kind = .comment) :
    searchThrough lang state limit (t :: ts) =
      if state.isAwaiting then none else searchThrough lang state limit ts := by
  rw [searchThrough, ht]

theorem searchThrough_code (ht : t.isCode = true) :
    searchThrough lang state limit (t :: ts) =
      if (lang.step state t).isDone || limit ≤ 1 then none
      else searchThrough lang (lang.step state t) (limit - 1) ts := by
  unfold Token.isCode at ht
  rw [searchThrough]
  split <;> simp_all

/-- A search that reaches the end of some tokens goes on in those behind them, in the state and with
    the limit it has there. -/
theorem lookahead_append_of_through
    (h : searchThrough lang state limit ts = some (state', limit')) (more : List Token) :
    lookahead lang state limit (ts ++ more) = lookahead lang state' limit' more := by
  induction ts generalizing state limit with
  | nil =>
    cases h
    rfl
  | cons t ts ih =>
    rw [List.cons_append]
    rcases t.space_or_comment_or_code with ht | ht | ht
    · rw [searchThrough_space ht] at h
      rw [lookahead_space _ _ _ _ ht, ih h]
    · rw [searchThrough_comment ht] at h
      rw [lookahead_comment _ _ _ _ ht]
      split at h
      · cases h
      · rename_i hreading
        rw [if_neg hreading, ih h]
    · rw [searchThrough_code ht] at h
      rw [lookahead_code _ _ _ _ ht]
      split at h
      · cases h
      · rename_i hgoes
        rw [if_neg hgoes, ih h]

/-- A search that ends among tokens is not touched by what follows them. -/
theorem lookahead_append_of_ended (h : searchThrough lang state limit ts = none)
    (more : List Token) :
    lookahead lang state limit (ts ++ more) =
      ((lookahead lang state limit ts).1, (lookahead lang state limit ts).2 ++ more) := by
  induction ts generalizing state limit with
  | nil => cases h
  | cons t ts ih =>
    rw [List.cons_append]
    rcases t.space_or_comment_or_code with ht | ht | ht
    · rw [searchThrough_space ht] at h
      rw [lookahead_space _ _ _ _ ht, lookahead_space _ _ _ _ ht, ih h]
    · rw [searchThrough_comment ht] at h
      rw [lookahead_comment _ _ _ _ ht, lookahead_comment _ _ _ _ ht]
      split at h
      · rename_i hawaiting
        rw [if_pos hawaiting, if_pos hawaiting]
        rfl
      · rename_i hreading
        rw [if_neg hreading, if_neg hreading, ih h]
    · rw [searchThrough_code ht] at h
      rw [lookahead_code _ _ _ _ ht, lookahead_code _ _ _ _ ht]
      split at h
      · rename_i hends
        rw [if_pos hends, if_pos hends]
      · rename_i hgoes
        rw [if_neg hgoes, if_neg hgoes, ih h]

/-- A search that goes on is not over. -/
theorem isDone_of_through (hstate : state.isDone = false)
    (h : searchThrough lang state limit ts = some (state', limit')) : state'.isDone = false := by
  induction ts generalizing state limit with
  | nil =>
    cases h
    exact hstate
  | cons t ts ih =>
    rcases t.space_or_comment_or_code with ht | ht | ht
    · rw [searchThrough_space ht] at h
      exact ih hstate h
    · rw [searchThrough_comment ht] at h
      split at h
      · cases h
      · exact ih hstate h
    · rw [searchThrough_code ht] at h
      split at h
      · cases h
      · rename_i hgoes
        obtain ⟨hgoes, -⟩ : (lang.step state t).isDone = false ∧ ¬ limit ≤ 1 := by
          simpa using hgoes
        exact ih hgoes h

end Search

/-- Comments that continue a block are taken up to where the tokens after them allow it: either some
    token ends them before, or the tokens after them do so at once. -/
theorem continuation_append {lang : Language} {ts more : List Token} {endLine : Nat}
    (h : (continuation lang endLine ts).rest ≠ [] ∨
      ∀ endLine, continuation lang endLine more = ⟨[], endLine, more⟩) :
    continuation lang endLine (ts ++ more) =
      { continuation lang endLine ts with rest := (continuation lang endLine ts).rest ++ more } := by
  induction ts generalizing endLine with
  | nil =>
    rcases h with h | h
    · exact absurd rfl h
    · exact h endLine
  | cons t ts ih =>
    rw [List.cons_append]
    rcases t.space_or_comment_or_code with ht | ht | ht
    · rw [continuation_space _ _ _ ht] at h ⊢
      rw [continuation_space _ _ _ ht, ih h]
    · by_cases hopens : lang.opensBlock t.text = true
      · rw [continuation_opening _ _ _ ht hopens, continuation_opening _ _ _ ht hopens]
        rfl
      · have hopens : lang.opensBlock t.text = false := by simpa using hopens
        rw [continuation_comment _ _ _ ht hopens] at h ⊢
        rw [continuation_comment _ _ _ ht hopens, ih h]
    · rw [continuation_code _ _ _ ht, continuation_code _ _ _ ht]
      rfl

/-- What follows the comments of a block does not matter once they have been ended. -/
theorem opened_append {lang : Language} {t : Token} {ts more : List Token}
    (h : (opened lang t ts).rest ≠ [] ∨
      ∀ endLine, continuation lang endLine more = ⟨[], endLine, more⟩) :
    opened lang t (ts ++ more) =
      { opened lang t ts with rest := (opened lang t ts).rest ++ more } := by
  unfold opened at h ⊢
  rw [continuation_append h]

section Opening

variable {lang : Language} {t c : Token} {ts more : List Token}

theorem openDraft?_of_not_comment (ht : t.kind ≠ .comment) :
    openDraft? lang (t :: ts) = openDraft? lang ts := by
  rw [openDraft?, if_neg ht]

/-- Behind comments that document nothing no declaration is looked for. -/
theorem openDraft?_plain (ht : t.kind = .comment)
    (hdoc : documents lang t (opened lang t ts) = false) :
    openDraft? lang (t :: ts) = openDraft? lang (opened lang t ts).rest := by
  rw [openDraft?, if_pos ht]
  simp [hdoc]

/-- Behind a block the search for its declaration reaches the end, or the reading goes on behind
    it. -/
theorem openDraft?_documented (ht : t.kind = .comment)
    (hdoc : documents lang t (opened lang t ts) = true) :
    openDraft? lang (t :: ts) =
      match searchThrough lang .start declarationLimit (opened lang t ts).rest with
      | some (.reading d, _) => some d
      | some _ => none
      | none => openDraft? lang (close lang false t (opened lang t ts)).2 := by
  rw [openDraft?, if_pos ht]
  simp only [hdoc, if_true]

theorem openGroup?_of_not_comment (ht : t.kind ≠ .comment) :
    openGroup? lang (t :: ts) = openGroup? lang ts := by
  rw [openGroup?, if_neg ht]

/-- Comments that nothing ends are still being grouped. -/
theorem openGroup?_of_rest_eq_nil (ht : t.kind = .comment) (hrest : (opened lang t ts).rest = []) :
    openGroup? lang (t :: ts) = some (t, ts) := by
  rw [openGroup?, if_pos ht]
  simp [hrest]

/-- Comments that were ended are grouped no more. Behind those that document something the
    declaration is passed by. -/
theorem openGroup?_documented (ht : t.kind = .comment) (hrest : (opened lang t ts).rest ≠ [])
    (hdoc : documents lang t (opened lang t ts) = true) :
    openGroup? lang (t :: ts) = openGroup? lang (close lang false t (opened lang t ts)).2 := by
  rw [openGroup?, if_pos ht]
  simp [hrest, hdoc]

/-- Comments that document nothing are dropped where they were ended, and grouping starts anew
    behind them. -/
theorem openGroup?_plain (ht : t.kind = .comment) (hrest : (opened lang t ts).rest ≠ [])
    (hdoc : documents lang t (opened lang t ts) = false) :
    openGroup? lang (t :: ts) = openGroup? lang (opened lang t ts).rest := by
  rw [openGroup?, if_pos ht]
  simp [hrest, hdoc]

/-- Where no comments are being grouped, those at the front were ended by some token. -/
theorem rest_ne_nil_of_openGroup? (ht : t.kind = .comment)
    (hnone : openGroup? lang (t :: ts) = none) : (opened lang t ts).rest ≠ [] := by
  intro hrest
  rw [openGroup?_of_rest_eq_nil ht hrest] at hnone
  cases hnone

/-- A comment that does not go on with the comments before it ends them, if nothing else has. -/
theorem opened_append_ended (ht : t.kind = .comment) (hc : c.kind = .comment)
    (hends : openGroup? lang (t :: ts) = none ∨ lang.opensBlock c.text = true)
    (more : List Token) :
    opened lang t (ts ++ c :: more) =
      { opened lang t ts with rest := (opened lang t ts).rest ++ c :: more } := by
  apply opened_append
  rcases hends with hnone | hopens
  · exact .inl (rest_ne_nil_of_openGroup? ht hnone)
  · exact .inr fun endLine => continuation_opening lang endLine more hc hopens

/-- A declaration can only be read once some token has ended the comments of its block. -/
theorem rest_ne_nil_of_openDraft? (ht : t.kind = .comment)
    (hopen : (openDraft? lang (t :: ts)).isSome = true) : (opened lang t ts).rest ≠ [] := by
  intro hnil
  by_cases hdoc : documents lang t (opened lang t ts) = true
  · rw [openDraft?_documented ht hdoc, hnil] at hopen
    simp [searchThrough, Progress.start] at hopen
  · rw [openDraft?_plain ht (by simpa using hdoc), hnil] at hopen
    simp [openDraft?] at hopen

/-- Where a search goes on to the end of the tokens after a block, the tokens behind them decide. -/
theorem close_append_of_through {isFirst : Bool} {comments : Comments} {state : Progress}
    {limit : Nat}
    (h : searchThrough lang .start declarationLimit comments.rest = some (state, limit)) :
    close lang isFirst t { comments with rest := comments.rest ++ more } =
      ({ text := comments.text, line := t.line, endLine := comments.endLine,
         declaration := (lookahead lang state limit more).1.result, isFirst },
        (lookahead lang state limit more).2) := by
  unfold close
  dsimp only
  rw [lookahead_append_of_through h]
  rfl

/-- The block of a search that goes on to the end of all tokens has what was read by then. -/
theorem close_of_through {isFirst : Bool} {comments : Comments} {state : Progress} {limit : Nat}
    (h : searchThrough lang .start declarationLimit comments.rest = some (state, limit)) :
    close lang isFirst t comments =
      ({ text := comments.text, line := t.line, endLine := comments.endLine,
         declaration := state.result, isFirst }, []) := by
  have happend := lookahead_append_of_through h []
  rw [List.append_nil] at happend
  unfold close
  rw [happend]
  rfl

/-- A search that ends before the tokens do gives the same block whatever follows. -/
theorem close_append_of_ended {isFirst : Bool} {comments : Comments}
    (h : searchThrough lang .start declarationLimit comments.rest = none) :
    close lang isFirst t { comments with rest := comments.rest ++ more } =
      ((close lang isFirst t comments).1, (close lang isFirst t comments).2 ++ more) := by
  unfold close
  dsimp only
  rw [lookahead_append_of_ended h]
  rfl

/-- Where a declaration is being read, no comments are being grouped. -/
theorem openGroup?_of_openDraft? (hopen : (openDraft? lang ts).isSome = true) :
    openGroup? lang ts = none := by
  induction ts using later.induct lang with
  | case1 => rw [openGroup?]
  | case2 t ts ht comments hdoc ih =>
    rw [openGroup?_documented ht (rest_ne_nil_of_openDraft? ht hopen) hdoc]
    rw [openDraft?_documented ht hdoc] at hopen
    cases hsearch : searchThrough lang .start declarationLimit (opened lang t ts).rest with
    | none =>
      rw [hsearch] at hopen
      exact ih hopen
    | some found =>
      rw [close_of_through hsearch, openGroup?]
  | case3 t ts ht comments hdoc ih =>
    have hdoc : documents lang t comments = false := by simpa using hdoc
    rw [openGroup?_plain ht (rest_ne_nil_of_openDraft? ht hopen) hdoc]
    rw [openDraft?_plain ht hdoc] at hopen
    exact ih hopen
  | case4 t ts ht ih =>
    rw [openDraft?_of_not_comment ht] at hopen
    rw [openGroup?_of_not_comment ht, ih hopen]

/-- A search that has moved on has met a token, which ends the comments before it. -/
theorem opened_append_of_moved
    (hmoved : searchThrough lang .start declarationLimit (opened lang t ts).rest ≠
      some (.start, declarationLimit)) (more : List Token) :
    opened lang t (ts ++ more) =
      { opened lang t ts with rest := (opened lang t ts).rest ++ more } := by
  apply opened_append
  left
  intro hnil
  rw [hnil] at hmoved
  exact hmoved rfl

/-- A comment met by the search behind a block ends it before any declaration, and is passed over
    while one is being read. -/
theorem later_append_comment_of_through {state : Progress} {limit : Nat} (ht : t.kind = .comment)
    (hdoc : documents lang t (opened lang t ts) = true) (hc : c.kind = .comment)
    (hbehind : opened lang t (ts ++ c :: more) =
      { opened lang t ts with rest := (opened lang t ts).rest ++ c :: more })
    (hsearch : searchThrough lang .start declarationLimit (opened lang t ts).rest =
      some (state, limit)) :
    later lang (t :: (ts ++ c :: more)) =
      if (openDraft? lang (t :: ts)).isSome then later lang (t :: (ts ++ more))
      else later lang (t :: ts) ++ later lang (c :: more) := by
  rw [later_documented _ _ ht (by rw [hbehind]; exact hdoc), hbehind, later_documented _ _ ht hdoc,
    openDraft?_documented ht hdoc, hsearch, close_append_of_through hsearch,
    lookahead_comment _ _ _ _ hc]
  cases state with
  | awaiting isLocal =>
    rw [close_of_through hsearch, later]
    rfl
  | reading d =>
    have hwithout := opened_append_of_moved (by rw [hsearch]; simp [Progress.start]) more
    rw [later_documented _ _ ht (by rw [hwithout]; exact hdoc), hwithout,
      close_append_of_through hsearch]
    rfl
  | done declaration =>
    have hgoes := isDone_of_through rfl hsearch
    cases hgoes

/-- A comment met behind other tokens, which continues no group there, starts one of its own, unless
    a declaration is being read; then the blocks are those without the comment. -/
theorem later_append_comment (hc : c.kind = .comment) (ts more : List Token)
    (hends : openGroup? lang ts = none ∨ lang.opensBlock c.text = true) :
    later lang (ts ++ c :: more) =
      if (openDraft? lang ts).isSome then later lang (ts ++ more)
      else later lang ts ++ later lang (c :: more) := by
  -- along the blocks of `ts`: only the last one's search can reach the comment
  induction ts using later.induct lang with
  | case1 => simp [openDraft?, later]
  | case2 t ts ht comments hdoc ih =>
    have hbehind : opened lang t (ts ++ c :: more) =
        { comments with rest := comments.rest ++ c :: more } := opened_append_ended ht hc hends more
    cases hsearch : searchThrough lang .start declarationLimit comments.rest with
    | none =>
      have hends' : openGroup? lang (close lang false t comments).2 = none ∨
          lang.opensBlock c.text = true := by
        refine hends.imp_left fun hnone => ?_
        rw [← openGroup?_documented ht (rest_ne_nil_of_openGroup? ht hnone) hdoc, hnone]
      have hwithout := opened_append_of_moved (by rw [hsearch]; simp) more
      rw [List.cons_append, later_documented _ _ ht (by rw [hbehind]; exact hdoc), hbehind,
        later_documented _ _ ht hdoc, openDraft?_documented ht hdoc, hsearch,
        close_append_of_ended hsearch, ih hends', List.cons_append, List.cons_append,
        later_documented _ _ ht (by rw [hwithout]; exact hdoc), hwithout,
        close_append_of_ended hsearch]
      split <;> rfl
    | some found => exact later_append_comment_of_through ht hdoc hc hbehind hsearch
  | case3 t ts ht comments hdoc ih =>
    have hdoc : documents lang t comments = false := by simpa using hdoc
    have hbehind : opened lang t (ts ++ c :: more) =
        { comments with rest := comments.rest ++ c :: more } := opened_append_ended ht hc hends more
    have hends' : openGroup? lang comments.rest = none ∨ lang.opensBlock c.text = true := by
      refine hends.imp_left fun hnone => ?_
      rw [← openGroup?_plain ht (rest_ne_nil_of_openGroup? ht hnone) hdoc, hnone]
    rw [List.cons_append, later_plain _ _ ht (by rw [hbehind]; exact hdoc), hbehind, ih hends',
      later_plain _ _ ht hdoc, openDraft?_plain ht hdoc]
    split
    · rename_i hopen
      have hrest : comments.rest ≠ [] := by
        intro hnil
        simp [comments, hnil, openDraft?] at hopen
      have hwithout : opened lang t (ts ++ more) =
          { comments with rest := comments.rest ++ more } := opened_append (.inl hrest)
      rw [List.cons_append, later_plain _ _ ht (by rw [hwithout]; exact hdoc), hwithout]
    · rfl
  | case4 t ts ht ih =>
    rw [openGroup?_of_not_comment ht] at hends
    rw [List.cons_append, later_of_not_comment _ _ ht, later_of_not_comment _ _ ht,
      openDraft?_of_not_comment ht, ih hends, List.cons_append, later_of_not_comment _ _ ht]

/-- A comment that opens blocks, met behind other tokens, starts a block of its own there, unless a
    declaration is being read; then the blocks are those without the comment. -/
theorem later_append_opening (hc : c.kind = .comment) (hopens : lang.opensBlock c.text = true)
    (ts more : List Token) :
    later lang (ts ++ c :: more) =
      if (openDraft? lang ts).isSome then later lang (ts ++ more)
      else later lang ts ++ later lang (c :: more) :=
  later_append_comment hc ts more (.inr hopens)

/-- Behind tokens with a comment, those decide whether the first comment documents something; a
    comment behind tokens without one is the first itself. -/
theorem startsDocumented_append_comment (hc : c.kind = .comment) (ts more : List Token)
    (hends : openGroup? lang ts = none ∨ lang.opensBlock c.text = true) :
    startsDocumented lang (ts ++ c :: more) =
      if ts.any (·.kind = .comment) then startsDocumented lang ts
      else documents lang c (opened lang c more) := by
  induction ts with
  | nil => simp [startsDocumented, hc]
  | cons t ts ih =>
    rw [List.cons_append, startsDocumented, startsDocumented]
    by_cases ht : t.kind = .comment
    · rw [if_pos ht, if_pos ht, opened_append_ended ht hc hends]
      simp [ht, documents, Comments.text]
    · rw [openGroup?_of_not_comment ht] at hends
      rw [if_neg ht, if_neg ht, ih hends]
      simp [ht]

theorem startsDocumented_of_no_comment (h : ∀ t ∈ ts, t.kind ≠ .comment) :
    startsDocumented lang ts = true := by
  induction ts with
  | nil => rfl
  | cons t ts ih =>
    obtain ⟨ht, hts⟩ := List.forall_mem_cons.mp h
    rw [startsDocumented, if_neg ht]
    exact ih hts

/-- The first comment of the tokens before decides for them too, if it is not grouped with the one
    behind. -/
theorem startsDocumented_of_append_comment (hc : c.kind = .comment)
    (hends : openGroup? lang ts = none ∨ lang.opensBlock c.text = true)
    (h : startsDocumented lang (ts ++ c :: more) = true) : startsDocumented lang ts = true := by
  rw [startsDocumented_append_comment hc ts more hends] at h
  split at h
  · exact h
  · rename_i hnone
    exact startsDocumented_of_no_comment (by simpa using hnone)

theorem startsDocumented_of_append (hc : c.kind = .comment)
    (hopens : lang.opensBlock c.text = true)
    (h : startsDocumented lang (ts ++ c :: more) = true) : startsDocumented lang ts = true :=
  startsDocumented_of_append_comment hc (.inr hopens) h

/-- A comment inside a declaration is not the first one, so leaving it out changes nothing. -/
theorem startsDocumented_without (hc : c.kind = .comment) (hopens : lang.opensBlock c.text = true)
    (hopen : (openDraft? lang ts).isSome = true)
    (h : startsDocumented lang (ts ++ c :: more) = true) :
    startsDocumented lang (ts ++ more) = true := by
  induction ts with
  | nil => simp [openDraft?] at hopen
  | cons t ts ih =>
    rw [List.cons_append, startsDocumented] at h ⊢
    by_cases ht : t.kind = .comment
    · rw [if_pos ht, opened_append (.inr fun _ => continuation_opening _ _ _ hc hopens)] at h
      rw [if_pos ht, opened_append (.inl (rest_ne_nil_of_openDraft? ht hopen))]
      exact h
    · rw [if_neg ht] at h ⊢
      rw [openDraft?_of_not_comment ht] at hopen
      exact ih hopen h

end Opening

/-- What becomes of a doc comment of Lua that stands behind other tokens. Unless a declaration is
    being read there, it opens a block of its own, after the blocks of the tokens before it. Inside
    a declaration, which need not be in its parameter list, the comment is lost: the blocks are
    those of the tokens without it. -/
theorem scan_lua_docComment {file : Path} {src : Text} {blocks : List DocBlock}
    {before after : List Token} {c : Token} (hscan : scan .lua file src = .ok blocks)
    (htokens : Lua.tokens src = before ++ c :: after) (hc : c.kind = .comment)
    (hdoc : Lua.isDoc c.text = true) :
    (openDraft? .lua before = none →
      ∃ earlier b others, blocks = earlier ++ b :: others ∧
        ofTokens .lua file before = .ok earlier ∧ b.line = c.line ∧ Lua.body c.text <+: b.text) ∧
    (∀ d, openDraft? .lua before = some d →
      ofTokens .lua file (before ++ after) = .ok blocks) := by
  have hopens : Language.lua.opensBlock c.text = true := hdoc
  have hofTokens : ofTokens .lua file (before ++ c :: after) = .ok blocks := by
    rw [← htokens]
    exact hscan
  obtain ⟨hstarts, rfl⟩ := ofTokens_eq_ok_iff.mp hofTokens
  rw [later_append_opening hc hopens]
  refine ⟨?_, ?_⟩
  · intro hidle
    obtain ⟨b, others, hb, hline, hnotFirst, hbody⟩ :=
      later_doc Language.lua after hc hdoc
    refine ⟨markFirst (later .lua before), { b with isFirst := (later .lua before).isEmpty },
      others, ?_, ?_, hline, hbody⟩
    · simp only [hidle, Option.isSome_none, Bool.false_eq_true, if_false]
      rw [hb, markFirst_append_cons _ hnotFirst]
    · exact ofTokens_eq_ok_iff.mpr ⟨startsDocumented_of_append hc hopens hstarts, rfl⟩
  · intro d hreading
    have hopen : (openDraft? .lua before).isSome = true := by rw [hreading]; rfl
    rw [if_pos hopen]
    exact ofTokens_eq_ok_iff.mpr ⟨startsDocumented_without hc hopens hopen hstarts, rfl⟩

/-- Three doc comments, the second of them right behind a local name. -/
def threeComments : Text :=
  "--- A\nlocal x\n--- B\nlocal y = 1\n--- C\n"

theorem scan_threeComments :
    scan .lua ⟨"m.lua"⟩ threeComments =
      .ok [⟨"A", 1, 1, some ⟨"x", .variable, true⟩, true⟩, ⟨"C", 5, 5, none, false⟩] :=
  ofTokens_eq_ok_iff.mpr ⟨by decide +kernel, by decide +kernel⟩

theorem tokens_threeComments_second :
    Lua.tokens threeComments = (Lua.tokens threeComments).take 6 ++
      ⟨.comment, "--- B", 3⟩ :: (Lua.tokens threeComments).drop 7 := by decide +kernel

theorem tokens_threeComments_third :
    Lua.tokens threeComments = (Lua.tokens threeComments).take 16 ++
      ⟨.comment, "--- C", 5⟩ :: (Lua.tokens threeComments).drop 17 := by decide +kernel

theorem scan_lua_docComment_second_and_third :
    (∃ blocks, scan .lua ⟨"m.lua"⟩ threeComments = .ok blocks ∧
      ofTokens .lua ⟨"m.lua"⟩
        ((Lua.tokens threeComments).take 6 ++ (Lua.tokens threeComments).drop 7) = .ok blocks) ∧
    ∃ blocks, scan .lua ⟨"m.lua"⟩ threeComments = .ok blocks ∧
      ∃ b ∈ blocks, b.line = 5 ∧ ("C" : Text) <+: b.text := by
  refine ⟨⟨_, scan_threeComments, ?_⟩, ⟨_, scan_threeComments, ?_⟩⟩
  · exact (scan_lua_docComment scan_threeComments tokens_threeComments_second rfl
      (by decide)).2 { isLocal := true, stage := .afterName, name := "x" } (by decide +kernel)
  · obtain ⟨earlier, b, others, hblocks, -, hline, hbody⟩ :=
      (scan_lua_docComment scan_threeComments tokens_threeComments_third rfl
        (by decide)).1 (by decide +kernel)
    refine ⟨b, ?_, hline, hbody⟩
    rw [hblocks]
    exact List.mem_append_right earlier List.mem_cons_self

/-- The second doc comment is in no parameter list and opens no block. -/
theorem scan_lua_docComment_lost :
    ∃ blocks before c after, scan .lua ⟨"m.lua"⟩ threeComments = .ok blocks ∧
      Lua.tokens threeComments = before ++ c :: after ∧ c.kind = .comment ∧
      Lua.isDoc c.text = true ∧ (∀ t ∈ before, t.isOther "(" = false) ∧
      ∀ b ∈ blocks, b.line ≠ c.line :=
  ⟨_, _, _, _, scan_threeComments, tokens_threeComments_second, rfl, by decide,
    by decide +kernel, by decide⟩

end SourceDoc.DocBlock
