import SourceDoc.Proofs.DocBlock.Grouping
import SourceDoc.Proofs.Tag.Extraction
import SourceDoc.Proofs.Workspace.FirstComment

namespace SourceDoc

namespace TagTable

theorem isEmpty_update (name : Text) (change : TagValue → TagValue) (new : TagValue)
    (entries : List (Text × TagValue)) :
    isEmpty ⟨Dictionary.update name change new entries⟩ = false :=
  List.isEmpty_eq_false_iff.mpr (Keyed.upsert_ne_nil entries)

end TagTable

namespace DocText

/-- A tag leaves something in the table even if it names an entity: the class, if no name. -/
theorem isEmpty_tags_addTag (d : DocText) (rules : TagRules) (tag value : Text) :
    (d.addTag rules tag value).tags.isEmpty = false := by
  rw [tags_addTag]
  split
  · rw [nameEntity]
    dsimp only
    split <;> exact TagTable.isEmpty_update ..
  · exact TagTable.isEmpty_update ..

theorem isEmpty_tags_foldl_addTag (rules : TagRules) (entries : List (Text × Text)) (d : DocText) :
    (entries.foldl (fun d entry => d.addTag rules entry.1 entry.2) d).tags.isEmpty =
      (entries.isEmpty && d.tags.isEmpty) := by
  cases entries using List.reverseRecOn with
  | nil => simp
  | append_singleton entries entry _ => simp [isEmpty_tags_addTag]

/-- Lines have tags if one of them is a tag line; the lines behind it only add to its value. -/
theorem isEmpty_tagsOfLines (lines : List Text) :
    (tagsOfLines lines).isEmpty = !lines.any TagLine.isTagLine := by
  induction lines with
  | nil => rfl
  | cons line lines ih =>
    rw [tagsOfLines, List.any_cons, TagLine.isTagLine]
    cases TagLine.ofLine? line with
    | none => simpa using ih
    | some tag => rfl

/-- Under whatever rules, a text has tags exactly if it has a tag line. -/
theorem isEmpty_tags_read (rules : TagRules) (t : Text) :
    (read rules t).tags.isEmpty = !TagLine.occursIn t := by
  rw [read]
  dsimp only
  rw [isEmpty_tags_foldl_addTag, canonicalTags, List.isEmpty_map, writtenTags, isEmpty_tagsOfLines]
  exact Bool.and_true _

/-- The search for tag lines answers whether there are tags, under whatever rules these are read
    later. -/
theorem occursIn_iff (rules : TagRules) (t : Text) :
    TagLine.occursIn t = true ↔ (read rules t).tags.isEmpty = false := by
  rw [isEmpty_tags_read, Bool.not_eq_false']

end DocText

namespace DocBlock

/-- A comment behind other tokens with which comments begin: it is not in a declaration there and
    does not go on with the comments before it. -/
structure Begins (lang : Language) (before : List Token) (c : Token) : Prop where
  comment : c.kind = .comment
  idle : openDraft? lang before = none
  ends : openGroup? lang before = none ∨ lang.opensBlock c.text = true

/-- Whether a comment is a doc comment or has tags, together with those that go on with it. -/
def IsDocumentation (rules : TagRules) (lang : Language) (c : Token) (after : List Token) : Prop :=
  lang.isDoc c.text = true ∨ (DocText.read rules (groupText lang c after)).tags.isEmpty = false
  deriving Decidable

/-- A block that some comment among tokens opens, with its line and the text of its comments. -/
def OpenedIn (rules : TagRules) (lang : Language) (ts : List Token) (b : DocBlock) : Prop :=
  ∃ before c after, ts = before ++ c :: after ∧ c.kind = .comment ∧ b.line = c.line ∧
    b.text = groupText lang c after ∧ IsDocumentation rules lang c after

section Taken

variable {lang : Language} {rules : TagRules} {before after ts : List Token} {c : Token}

/-- Comments are taken if they are documentation by the tags that any rules find in them. -/
theorem documents_iff (rules : TagRules) : documents lang c (opened lang c after) = true ↔
    IsDocumentation rules lang c after := by
  rw [documents, text_opened, Bool.or_eq_true_iff, DocText.occursIn_iff rules, IsDocumentation]

theorem documents_eq_false_iff (rules : TagRules) :
    documents lang c (opened lang c after) = false ↔ ¬IsDocumentation rules lang c after := by
  rw [← documents_iff, Bool.not_eq_true]

theorem OpenedIn.of_suffix {b : DocBlock} (h : OpenedIn rules lang ts b) {more : List Token}
    (hsuffix : ts <:+ more) : OpenedIn rules lang more b := by
  obtain ⟨skipped, rfl⟩ := hsuffix
  obtain ⟨before, c, after, rfl, h⟩ := h
  exact ⟨skipped ++ before, c, after, (List.append_assoc ..).symm, h⟩

/-- Every block is opened by some comment that is documentation. -/
theorem openedIn_of_mem_later (rules : TagRules) {b : DocBlock} (hb : b ∈ later lang ts) :
    OpenedIn rules lang ts b := by
  induction ts using later.induct lang with
  | case1 =>
    rw [later] at hb
    cases hb
  | case2 t ts ht comments hdoc ih =>
    rw [later_documented lang ts ht hdoc] at hb
    rcases List.mem_cons.mp hb with rfl | hb
    · exact ⟨[], t, ts, rfl, ht, rfl, text_opened lang t ts, (documents_iff rules).mp hdoc⟩
    · have hleft : (close lang false t comments).2 <:+ comments.rest :=
        lookahead_suffix .start declarationLimit comments.rest
      have hts := hleft.trans (rest_continuation_suffix t.endLine ts)
      exact (ih hb).of_suffix (hts.trans (List.suffix_cons t ts))
  | case3 t ts ht comments hdoc ih =>
    rw [later_plain lang ts ht (by simpa using hdoc)] at hb
    have hts : comments.rest <:+ ts := rest_continuation_suffix t.endLine ts
    exact (ih hb).of_suffix (hts.trans (List.suffix_cons t ts))
  | case4 t ts ht ih =>
    rw [later_of_not_comment lang ts ht] at hb
    exact (ih hb).of_suffix (List.suffix_cons t ts)

theorem openedIn_of_mem_markFirst {blocks : List DocBlock}
    (hblocks : ∀ b ∈ blocks, OpenedIn rules lang ts b) :
    ∀ b ∈ markFirst blocks, OpenedIn rules lang ts b := by
  cases blocks with
  | nil => exact hblocks
  | cons first others =>
    obtain ⟨hfirst, hothers⟩ := List.forall_mem_cons.mp hblocks
    exact List.forall_mem_cons.mpr ⟨hfirst, hothers⟩

/-- Tokens with a comment have a block if the first comment documents something. -/
theorem later_ne_nil_of_startsDocumented (hcomment : ts.any (·.kind = .comment) = true)
    (hstarts : startsDocumented lang ts = true) : later lang ts ≠ [] := by
  induction ts with
  | nil => cases hcomment
  | cons t ts ih =>
    rw [startsDocumented] at hstarts
    by_cases ht : t.kind = .comment
    · rw [if_pos ht] at hstarts
      rw [later_documented lang ts ht hstarts]
      exact List.cons_ne_nil _ _
    · rw [if_neg ht] at hstarts
      rw [later_of_not_comment lang ts ht]
      exact ih (by simpa [ht] using hcomment) hstarts

/-- Behind a block no other is marked. -/
theorem markFirst_append {bs : List DocBlock} (hbs : bs ≠ []) (more : List DocBlock) :
    markFirst (bs ++ more) = markFirst bs ++ more := by
  cases bs with
  | nil => exact absurd rfl hbs
  | cons b bs => rfl

/-- Where comments begin, the blocks before them are complete and those of the comments follow. -/
theorem Begins.later_append (h : Begins lang before c) (after : List Token) :
    later lang (before ++ c :: after) = later lang before ++ later lang (c :: after) := by
  rw [later_append_comment h.comment before after h.ends, h.idle]
  rfl

/-- Comments that document something get a block of their own, behind those of the tokens before. -/
theorem Begins.ofTokens_taken (h : Begins lang before c) (hdoc : IsDocumentation rules lang c after)
    {file : Path} {blocks : List DocBlock}
    (hblocks : ofTokens lang file (before ++ c :: after) = .ok blocks) :
    ∃ earlier b others, blocks = earlier ++ b :: others ∧ ofTokens lang file before = .ok earlier ∧
      b.line = c.line ∧ b.text = groupText lang c after := by
  obtain ⟨hstarts, rfl⟩ := ofTokens_eq_ok_iff.mp hblocks
  have hearlier : ofTokens lang file before = .ok (markFirst (later lang before)) :=
    ofTokens_eq_ok_iff.mpr ⟨startsDocumented_of_append_comment h.comment h.ends hstarts, rfl⟩
  rw [h.later_append, later_documented lang after h.comment ((documents_iff rules).mpr hdoc),
    markFirst_append_cons _ rfl]
  exact ⟨_, _, _, rfl, hearlier, rfl, text_opened lang c after⟩

/-- Comments that document nothing add no block. -/
theorem Begins.ofTokens_skipped (h : Begins lang before c)
    (hplain : ¬IsDocumentation rules lang c after) {file : Path} {blocks : List DocBlock}
    (hblocks : ofTokens lang file (before ++ c :: after) = .ok blocks) :
    ∃ earlier, ofTokens lang file before = .ok earlier ∧
      blocks = earlier ++ later lang (after.dropWhile (continues lang)) := by
  obtain ⟨hstarts, rfl⟩ := ofTokens_eq_ok_iff.mp hblocks
  have hdoc : documents lang c (opened lang c after) = false :=
    (documents_eq_false_iff rules).mpr hplain
  have hrest : (opened lang c after).rest = after.dropWhile (continues lang) := by
    rw [opened, continuation_eq]
  -- the comment can not be the first one, so there are blocks before it
  rw [startsDocumented_append_comment h.comment before after h.ends, hdoc] at hstarts
  obtain ⟨hcomment, hbefore⟩ : before.any (·.kind = .comment) = true ∧
      startsDocumented lang before = true := by simpa using hstarts
  refine ⟨_, ofTokens_eq_ok_iff.mpr ⟨hbefore, rfl⟩, ?_⟩
  rw [h.later_append, later_plain lang after h.comment hdoc, hrest]
  exact markFirst_append (later_ne_nil_of_startsDocumented hcomment hbefore) _

end Taken

/-- The search for tag lines and the reading of tags agree. So every block of a file comes from a
    doc comment or has tags, and of the comments with which others begin, one that is no doc comment
    is passed over, or refused as the first one, exactly if it would have had no tags. -/
theorem scan_takes_tagged (rules : TagRules) (lang : Language) (path : Path) (src : Text) :
    (∀ t, TagLine.occursIn t = true ↔ (DocText.read rules t).tags.isEmpty = false) ∧
    (∀ blocks, scan lang path src = .ok blocks →
      ∀ b ∈ blocks, OpenedIn rules lang (lang.tokens src) b) ∧
    ∀ before c after, lang.tokens src = before ++ c :: after → Begins lang before c →
      (IsDocumentation rules lang c after → ∀ blocks, scan lang path src = .ok blocks →
        ∃ earlier b others, blocks = earlier ++ b :: others ∧
          ofTokens lang path before = .ok earlier ∧ b.line = c.line ∧
          b.text = groupText lang c after) ∧
      (¬IsDocumentation rules lang c after →
        ((∀ t ∈ before, t.kind ≠ .comment) →
          scan lang path src = .error (.plainFirstComment path c.line)) ∧
        ∀ blocks, scan lang path src = .ok blocks →
          ∃ earlier, ofTokens lang path before = .ok earlier ∧
            blocks = earlier ++ later lang (after.dropWhile (continues lang))) := by
  refine ⟨DocText.occursIn_iff rules, ?_, ?_⟩
  · intro blocks hblocks
    obtain ⟨-, rfl⟩ := ofTokens_eq_ok_iff.mp hblocks
    exact openedIn_of_mem_markFirst fun b hb => openedIn_of_mem_later rules hb
  · intro before c after htokens hbegins
    have hscan : scan lang path src = ofTokens lang path (before ++ c :: after) := by
      rw [scan, htokens]
    refine ⟨?_, ?_⟩
    · intro hdoc blocks hblocks
      exact hbegins.ofTokens_taken hdoc (hscan ▸ hblocks)
    · intro hplain
      refine ⟨?_, ?_⟩
      · intro hbefore
        rw [scan_of_first_comment path htokens hbefore hbegins.comment, ← text_opened, ← documents,
          (documents_eq_false_iff rules).mpr hplain, if_neg Bool.false_ne_true]
      · intro blocks hblocks
        exact hbegins.ofTokens_skipped hplain (hscan ▸ hblocks)

/-- Rules with a tag that names entities and goes by an alias. -/
def serviceRules : TagRules :=
  (TagRules.standard.addAlias "srv" "service").add "service" ⟨false, true⟩

/-- An ordinary comment with a tag that names nothing, and one without tags. -/
def taggedOnce : Text :=
  "-- @srv\nlocal x = 1\n-- a note\nlocal y\n"

theorem scan_taggedOnce :
    scan .lua ⟨"m.lua"⟩ taggedOnce = .ok [⟨"@srv", 1, 1, some ⟨"x", .variable, true⟩, true⟩] :=
  ofTokens_eq_ok_iff.mpr ⟨by decide +kernel, by decide +kernel⟩

theorem scan_takes_tagged_once :
    (DocText.read serviceRules "@srv").tags.isEmpty = false ∧
    (∃ earlier b others, scan .lua ⟨"m.lua"⟩ taggedOnce = .ok (earlier ++ b :: others) ∧
      b.line = 1 ∧ b.text = ("@srv" : Text) ∧
      OpenedIn serviceRules .lua (Lua.tokens taggedOnce) b) ∧
    (∃ earlier, ofTokens .lua ⟨"m.lua"⟩ ((Lua.tokens taggedOnce).take 10) = .ok earlier ∧
      scan .lua ⟨"m.lua"⟩ taggedOnce = .ok earlier) ∧
    scan .lua ⟨"m.lua"⟩ "-- a note\n" = .error (.plainFirstComment ⟨"m.lua"⟩ 1) := by
  obtain ⟨hagree, hopened, htaken⟩ := scan_takes_tagged serviceRules .lua ⟨"m.lua"⟩ taggedOnce
  have htagged : (DocText.read serviceRules "@srv").tags.isEmpty = false :=
    (hagree "@srv").mp (by decide +kernel)
  have hfirst : Language.lua.tokens taggedOnce =
      [] ++ ⟨.comment, "-- @srv", 1⟩ :: (Lua.tokens taggedOnce).drop 1 := by decide +kernel
  have hsecond : Language.lua.tokens taggedOnce = (Lua.tokens taggedOnce).take 10 ++
      ⟨.comment, "-- a note", 3⟩ :: (Lua.tokens taggedOnce).drop 11 := by decide +kernel
  have hnote : Language.lua.tokens "-- a note\n" =
      [] ++ ⟨.comment, "-- a note", 1⟩ :: (Lua.tokens "-- a note\n").drop 1 := by decide +kernel
  have hgroup : groupText .lua ⟨.comment, "-- @srv", 1⟩ ((Lua.tokens taggedOnce).drop 1) =
      "@srv" := by decide +kernel
  refine ⟨htagged, ?_, ?_, ?_⟩
  · have hdoc : IsDocumentation serviceRules .lua ⟨.comment, "-- @srv", 1⟩
        ((Lua.tokens taggedOnce).drop 1) := .inr (hgroup ▸ htagged)
    obtain ⟨earlier, b, others, hblocks, -, hline, htext⟩ :=
      (htaken _ _ _ hfirst ⟨rfl, by decide +kernel, .inl (by decide +kernel)⟩).1 hdoc _
        scan_taggedOnce
    have hmem : b ∈ earlier ++ b :: others := List.mem_append_right earlier List.mem_cons_self
    exact ⟨earlier, b, others, hblocks ▸ scan_taggedOnce, hline, htext.trans hgroup,
      hopened _ scan_taggedOnce b (hblocks ▸ hmem)⟩
  · have hplain : ¬IsDocumentation serviceRules .lua ⟨.comment, "-- a note", 3⟩
        ((Lua.tokens taggedOnce).drop 11) := by decide +kernel
    obtain ⟨earlier, hearlier, hblocks⟩ :=
      ((htaken _ _ _ hsecond ⟨rfl, by decide +kernel, .inl (by decide +kernel)⟩).2 hplain).2 _
        scan_taggedOnce
    have hnone : later .lua (((Lua.tokens taggedOnce).drop 11).dropWhile (continues .lua)) = [] := by
      decide +kernel
    rw [hnone, List.append_nil] at hblocks
    exact ⟨earlier, hearlier, hblocks ▸ scan_taggedOnce⟩
  · obtain ⟨-, -, hrefused⟩ := scan_takes_tagged serviceRules .lua ⟨"m.lua"⟩ "-- a note\n"
    have hbegins : Begins .lua [] ⟨.comment, "-- a note", 1⟩ :=
      ⟨rfl, by decide +kernel, .inl (by decide +kernel)⟩
    exact ((hrefused _ _ _ hnote hbegins).2 (by decide +kernel)).1 (by simp)

end DocBlock

end SourceDoc
