import SourceDoc.Proofs.DocBlock.Opening
import SourceDoc.Proofs.Text.Lines

namespace SourceDoc.DocBlock

/-- Whether a comment that stands between other tokens is passed over: it is inside a declaration,
    or it continues comments that document nothing, even together with it. -/
def passesOver (lang : Language) (before : List Token) (c : Token) (after : List Token) : Bool :=
  (openDraft? lang before).isSome ||
    (openGroup? lang before).any fun (t, behind) =>
      !lang.opensBlock c.text && !documents lang t (opened lang t (behind ++ c :: after))

section Groups

variable {lang : Language} {t c : Token} {ts more : List Token}

/-- Which comments continue a block and where they end does not depend on lines. -/
theorem continuation_lines_irrelevant (lang : Language) (endLine other : Nat) (ts : List Token) :
    (continuation lang endLine ts).bodies = (continuation lang other ts).bodies ∧
      (continuation lang endLine ts).rest = (continuation lang other ts).rest := by
  induction ts with
  | nil => exact ⟨rfl, rfl⟩
  | cons t ts ih =>
    rcases t.space_or_comment_or_code with ht | ht | ht
    · rw [continuation_space _ _ _ ht, continuation_space _ _ _ ht]
      exact ih
    · by_cases hopens : lang.opensBlock t.text = true
      · rw [continuation_opening _ _ _ ht hopens, continuation_opening _ _ _ ht hopens]
        exact ⟨rfl, rfl⟩
      · have hopens : lang.opensBlock t.text = false := by simpa using hopens
        rw [continuation_comment _ _ _ ht hopens, continuation_comment _ _ _ ht hopens]
        exact ⟨rfl, rfl⟩
    · rw [continuation_code _ _ _ ht, continuation_code _ _ _ ht]
      exact ⟨rfl, rfl⟩

/-- Comments that nothing has ended go on in the tokens that follow. -/
theorem continuation_append_of_rest_eq_nil {endLine : Nat}
    (hrest : (continuation lang endLine ts).rest = []) (more : List Token) (other : Nat) :
    (continuation lang endLine (ts ++ more)).bodies =
        (continuation lang endLine ts).bodies ++ (continuation lang other more).bodies ∧
      (continuation lang endLine (ts ++ more)).rest = (continuation lang other more).rest := by
  induction ts generalizing endLine with
  | nil => exact continuation_lines_irrelevant lang endLine other more
  | cons t ts ih =>
    rw [List.cons_append]
    rcases t.space_or_comment_or_code with ht | ht | ht
    · rw [continuation_space _ _ _ ht] at hrest ⊢
      rw [continuation_space _ _ _ ht]
      exact ih hrest
    · by_cases hopens : lang.opensBlock t.text = true
      · rw [continuation_opening _ _ _ ht hopens] at hrest
        cases hrest
      · have hopens : lang.opensBlock t.text = false := by simpa using hopens
        rw [continuation_comment _ _ _ ht hopens] at hrest ⊢
        rw [continuation_comment _ _ _ ht hopens]
        obtain ⟨hbodies, hrest⟩ := ih hrest
        exact ⟨congrArg (lang.body t.text :: ·) hbodies, hrest⟩
    · rw [continuation_code _ _ _ ht] at hrest
      cases hrest

/-- A comment that opens no block, behind comments that nothing has ended, adds its text to theirs
    and changes nothing else about them. -/
theorem opened_append_comment (hrest : (opened lang t ts).rest = []) (hc : c.kind = .comment)
    (hopens : lang.opensBlock c.text = false) (more : List Token) :
    ∃ earlier others,
      (opened lang t (ts ++ c :: more)).bodies = earlier ++ lang.body c.text :: others ∧
      (opened lang t (ts ++ more)).bodies = earlier ++ others ∧
      (opened lang t (ts ++ c :: more)).rest = (opened lang t (ts ++ more)).rest := by
  obtain ⟨hbodies, htail⟩ := continuation_append_of_rest_eq_nil hrest (c :: more) c.endLine
  obtain ⟨hbodies', htail'⟩ := continuation_append_of_rest_eq_nil hrest more c.endLine
  rw [continuation_comment _ _ _ hc hopens] at hbodies htail
  refine ⟨(opened lang t ts).bodies, (continuation lang c.endLine more).bodies, ?_, ?_, ?_⟩
  · exact congrArg (lang.body t.text :: ·) hbodies
  · exact congrArg (lang.body t.text :: ·) hbodies'
  · exact htail.trans htail'.symm

/-- Where comments are being grouped, what follows is read as if it followed these comments alone,
    after the blocks found before. -/
theorem later_append_of_openGroup? {behind : List Token} (h : openGroup? lang ts = some (t, behind)) :
    t.kind = .comment ∧ (opened lang t behind).rest = [] ∧
      ∃ earlier, ∀ more, later lang (ts ++ more) = earlier ++ later lang (t :: (behind ++ more)) := by
  induction ts using later.induct lang with
  | case1 => simp [openGroup?] at h
  | case2 u us hu comments hdoc ih =>
    by_cases hrest : comments.rest = []
    · rw [openGroup?_of_rest_eq_nil hu hrest] at h
      cases h
      exact ⟨hu, hrest, [], fun _ => rfl⟩
    · rw [openGroup?_documented hu hrest hdoc] at h
      obtain ⟨ht, hend, earlier, hlater⟩ := ih h
      refine ⟨ht, hend, (close lang false u comments).1 :: earlier, ?_⟩
      intro more
      have hmore : opened lang u (us ++ more) = { comments with rest := comments.rest ++ more } :=
        opened_append (.inl hrest)
      have hended : searchThrough lang .start declarationLimit comments.rest = none := by
        cases hsearch : searchThrough lang .start declarationLimit comments.rest with
        | none => rfl
        | some found =>
          rw [close_of_through hsearch] at h
          simp [openGroup?] at h
      rw [List.cons_append, later_documented _ _ hu (by rw [hmore]; exact hdoc), hmore,
        close_append_of_ended hended, hlater, List.cons_append]
  | case3 u us hu comments hdoc ih =>
    have hdoc : documents lang u comments = false := by simpa using hdoc
    by_cases hrest : comments.rest = []
    · rw [openGroup?_of_rest_eq_nil hu hrest] at h
      cases h
      exact ⟨hu, hrest, [], fun _ => rfl⟩
    · rw [openGroup?_plain hu hrest hdoc] at h
      obtain ⟨ht, hend, earlier, hlater⟩ := ih h
      refine ⟨ht, hend, earlier, ?_⟩
      intro more
      have hmore : opened lang u (us ++ more) = { comments with rest := comments.rest ++ more } :=
        opened_append (.inl hrest)
      rw [List.cons_append, later_plain _ _ hu (by rw [hmore]; exact hdoc), hmore, hlater]
  | case4 u us hu ih =>
    rw [openGroup?_of_not_comment hu] at h
    obtain ⟨ht, hend, earlier, hlater⟩ := ih h
    refine ⟨ht, hend, earlier, ?_⟩
    intro more
    rw [List.cons_append, later_of_not_comment _ _ hu, hlater]

/-- Comments that document nothing do not do so without one of them either. -/
theorem documents_without {comments fewer : Comments} {earlier others : List Text} {body : Text}
    (hbodies : comments.bodies = earlier ++ body :: others) (hfewer : fewer.bodies = earlier ++ others)
    (hdoc : documents lang t comments = false) : documents lang t fewer = false := by
  simp only [documents, Comments.text, TagLine.occursIn_join, hbodies, hfewer, List.any_append,
    List.any_cons, Bool.or_eq_false_iff] at hdoc ⊢
  exact ⟨hdoc.1, hdoc.2.1, hdoc.2.2.2⟩

/-- A comment that is passed over leaves no trace among the blocks. -/
theorem later_of_passesOver (hc : c.kind = .comment) (h : passesOver lang ts c more = true) :
    later lang (ts ++ c :: more) = later lang (ts ++ more) := by
  by_cases hopen : (openDraft? lang ts).isSome = true
  · rw [later_append_comment hc ts more (.inl (openGroup?_of_openDraft? hopen)), if_pos hopen]
  · cases hgroup : openGroup? lang ts with
    | none => simp [passesOver, hopen, hgroup] at h
    | some found =>
      obtain ⟨t, behind⟩ := found
      obtain ⟨hopens, hdoc⟩ : lang.opensBlock c.text = false ∧
          documents lang t (opened lang t (behind ++ c :: more)) = false := by
        simpa [passesOver, hopen, hgroup] using h
      obtain ⟨ht, hrest, earlier, hlater⟩ := later_append_of_openGroup? hgroup
      obtain ⟨bodies, others, hbodies, hfewer, htail⟩ := opened_append_comment hrest hc hopens more
      have hdoc' := documents_without hbodies hfewer hdoc
      rw [hlater, hlater, later_plain _ _ ht hdoc, later_plain _ _ ht hdoc', htail]

/-- A doc comment that is not passed over is part of the text of a block. -/
theorem mem_later_of_not_passesOver (hc : c.kind = .comment) (hdoc : lang.isDoc c.text = true)
    (h : passesOver lang ts c more = false) :
    ∃ b ∈ later lang (ts ++ c :: more), lang.body c.text <:+: b.text := by
  simp only [passesOver, Bool.or_eq_false_iff] at h
  obtain ⟨hidle, hgroup⟩ := h
  by_cases hends : openGroup? lang ts = none ∨ lang.opensBlock c.text = true
  · obtain ⟨b, others, hb, -, -, hbody⟩ := later_doc lang more hc hdoc
    rw [later_append_comment hc ts more hends, hidle, hb]
    exact ⟨b, by simp, hbody.isInfix⟩
  · obtain ⟨hsome, hopens⟩ := not_or.mp hends
    obtain ⟨⟨t, behind⟩, hfound⟩ := Option.ne_none_iff_exists'.mp hsome
    have hdocuments : documents lang t (opened lang t (behind ++ c :: more)) = true := by
      simpa [hfound, hopens] using hgroup
    obtain ⟨ht, hrest, earlier, hlater⟩ := later_append_of_openGroup? hfound
    obtain ⟨bodies, others, hbodies, -, -⟩ :=
      opened_append_comment hrest hc (by simpa using hopens) more
    rw [hlater, later_documented _ _ ht hdocuments]
    refine ⟨_, List.mem_append_right earlier List.mem_cons_self, ?_⟩
    change lang.body c.text <:+: Text.join "\n" (opened lang t (behind ++ c :: more)).bodies
    exact Text.infix_join (by simp [hbodies])

/-- A file whose first comments document something still has such comments without one that is
    passed over. -/
theorem startsDocumented_of_passesOver (h : passesOver lang ts c more = true)
    (hstarts : startsDocumented lang (ts ++ c :: more) = true) :
    startsDocumented lang (ts ++ more) = true := by
  induction ts with
  | nil => simp [passesOver, openDraft?, openGroup?] at h
  | cons t ts ih =>
    rw [List.cons_append, startsDocumented] at hstarts ⊢
    by_cases ht : t.kind = .comment
    · rw [if_pos ht] at hstarts ⊢
      by_cases hrest : (opened lang t ts).rest = []
      · -- the first comments of the file go on here, so they are not the ones passed over
        have hgroup := openGroup?_of_rest_eq_nil ht hrest
        have hidle : (openDraft? lang (t :: ts)).isSome = false := by
          rw [Bool.eq_false_iff]
          intro hopen
          exact rest_ne_nil_of_openDraft? ht hopen hrest
        simp [passesOver, hidle, hgroup, hstarts] at h
      · rw [opened_append (.inl hrest)] at hstarts ⊢
        exact hstarts
    · have hskip : passesOver lang (t :: ts) c more = passesOver lang ts c more := by
        rw [passesOver, openDraft?_of_not_comment ht, openGroup?_of_not_comment ht, passesOver]
      rw [if_neg ht] at hstarts ⊢
      rw [hskip] at h
      exact ih h hstarts

end Groups

/-- Marking the first block changes no text. -/
theorem exists_mem_markFirst {bs : List DocBlock} {b : DocBlock} (h : b ∈ bs) :
    ∃ marked ∈ markFirst bs, marked.text = b.text := by
  cases bs with
  | nil => cases h
  | cons first bs =>
    rcases List.mem_cons.mp h with rfl | h
    · exact ⟨_, List.mem_cons_self, rfl⟩
    · exact ⟨b, List.mem_cons_of_mem _ h, rfl⟩

/-- What becomes of a doc comment of C. Unless it is passed over, its text is part of the text of a
    block. It is passed over inside a declaration, which need not be in its parameter list, and
    behind an ordinary comment whose group has no tag line; the blocks are then those of the tokens
    without it. -/
theorem scan_c_docComment {file : Path} {src : Text} {blocks : List DocBlock}
    {before after : List Token} {c : Token} (hscan : scan .c file src = .ok blocks)
    (htokens : C.tokens src = before ++ c :: after) (hc : c.kind = .comment)
    (hdoc : C.isDoc c.text = true) :
    (passesOver .c before c after = false → ∃ b ∈ blocks, C.body c.text <:+: b.text) ∧
    (passesOver .c before c after = true → ofTokens .c file (before ++ after) = .ok blocks) := by
  have hdoc : Language.c.isDoc c.text = true := hdoc
  have hofTokens : ofTokens .c file (before ++ c :: after) = .ok blocks := by
    rw [← htokens]
    exact hscan
  obtain ⟨hstarts, rfl⟩ := ofTokens_eq_ok_iff.mp hofTokens
  refine ⟨?_, ?_⟩
  · intro hkept
    obtain ⟨b, hb, hbody⟩ := mem_later_of_not_passesOver hc hdoc hkept
    obtain ⟨marked, hmarked, htext⟩ := exists_mem_markFirst hb
    exact ⟨marked, hmarked, htext ▸ hbody⟩
  · intro hlost
    rw [later_of_passesOver hc hlost]
    exact ofTokens_eq_ok_iff.mpr ⟨startsDocumented_of_passesOver hlost hstarts, rfl⟩

/-- Three doc comments, the second of them behind an ordinary comment. -/
def plainBeforeDoc : Text :=
  "/** A */\nint x;\n// note\n/// B\nint y;\n/// C\n"

theorem scan_plainBeforeDoc :
    scan .c ⟨"m.c"⟩ plainBeforeDoc =
      .ok [⟨"A", 1, 1, some ⟨"x", .variable, false⟩, true⟩, ⟨"C", 6, 6, none, false⟩] :=
  ofTokens_eq_ok_iff.mpr ⟨by decide +kernel, by decide +kernel⟩

theorem tokens_plainBeforeDoc_second :
    C.tokens plainBeforeDoc = (C.tokens plainBeforeDoc).take 9 ++
      ⟨.comment, "/// B", 4⟩ :: (C.tokens plainBeforeDoc).drop 10 := by decide +kernel

theorem tokens_plainBeforeDoc_third :
    C.tokens plainBeforeDoc = (C.tokens plainBeforeDoc).take 16 ++
      ⟨.comment, "/// C", 6⟩ :: (C.tokens plainBeforeDoc).drop 17 := by decide +kernel

theorem scan_c_docComment_second_and_third :
    (∃ blocks, scan .c ⟨"m.c"⟩ plainBeforeDoc = .ok blocks ∧
      ofTokens .c ⟨"m.c"⟩
        ((C.tokens plainBeforeDoc).take 9 ++ (C.tokens plainBeforeDoc).drop 10) = .ok blocks) ∧
    ∃ blocks, scan .c ⟨"m.c"⟩ plainBeforeDoc = .ok blocks ∧
      ∃ b ∈ blocks, ("C" : Text) <:+: b.text := by
  refine ⟨⟨_, scan_plainBeforeDoc, ?_⟩, ⟨_, scan_plainBeforeDoc, ?_⟩⟩
  · exact (scan_c_docComment scan_plainBeforeDoc tokens_plainBeforeDoc_second rfl
      (by decide)).2 (by decide +kernel)
  · exact (scan_c_docComment scan_plainBeforeDoc tokens_plainBeforeDoc_third rfl
      (by decide)).1 (by decide +kernel)

/-- The second doc comment is in no parameter list, and no block has its text. -/
theorem scan_c_docComment_lost :
    ∃ blocks before c after, scan .c ⟨"m.c"⟩ plainBeforeDoc = .ok blocks ∧
      C.tokens plainBeforeDoc = before ++ c :: after ∧ c.kind = .comment ∧
      C.isDoc c.text = true ∧ (∀ t ∈ before, t.isOther "(" = false) ∧
      ∀ b ∈ blocks, ¬ C.body c.text <:+: b.text :=
  ⟨_, _, _, _, scan_plainBeforeDoc, tokens_plainBeforeDoc_second, rfl, by decide,
    by decide +kernel, by decide +kernel⟩

end SourceDoc.DocBlock
