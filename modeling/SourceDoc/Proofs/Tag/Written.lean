import SourceDoc.Proofs.Tag.Table
import SourceDoc.Proofs.Text.Lines
import SourceDoc.Proofs.Text.Words
import SourceDoc.Tag.DocText

namespace SourceDoc

namespace TagLine

/-- A tag and its value as they are written on a line. -/
def written (entry : Text × Text) : Text :=
  '@' :: (entry.1 ++ ' ' :: entry.2)

/-- An entry whose tag is a word. -/
def IsNamed (entry : Text × Text) : Prop :=
  entry.1 ≠ [] ∧ ∀ c ∈ entry.1, Text.isWordChar c = true

/-- A tag line is read back as its tag and its value. -/
theorem ofLine?_written {entry : Text × Text} (h : IsNamed entry) :
    ofLine? (written entry) = some ⟨entry.1, entry.2⟩ := by
  have hat : Text.isBlank '@' = false := by decide
  have hspace : Text.isBlank ' ' = true := by decide
  have hword : Text.isWordChar ' ' = false := by decide +kernel
  have htake : (entry.1 ++ ' ' :: entry.2).takeWhile Text.isWordChar = entry.1 := by
    rw [List.takeWhile_append_of_pos h.2]
    simp [hword]
  have hdrop : (entry.1 ++ ' ' :: entry.2).dropWhile Text.isWordChar = ' ' :: entry.2 := by
    rw [List.dropWhile_append_of_pos h.2]
    simp [hword]
  rw [ofLine?, written, List.dropWhile_cons_of_neg (by simp [hat])]
  simp [htake, hdrop, hspace, h.1]

theorem isTagLine_written {entry : Text × Text} (h : IsNamed entry) :
    isTagLine (written entry) = true := by
  rw [isTagLine, ofLine?_written h]
  rfl

end TagLine

namespace DocText

open TagLine (written IsNamed)

theorem takeWhile_written {entries : List (Text × Text)} (h : ∀ entry ∈ entries, IsNamed entry) :
    (entries.map written).takeWhile (!TagLine.isTagLine ·) = [] := by
  cases entries with
  | nil => rfl
  | cons entry entries => simp [TagLine.isTagLine_written (h entry List.mem_cons_self)]

/-- Each tag line gives its own value. -/
theorem tagsOfLines_written {entries : List (Text × Text)} (h : ∀ entry ∈ entries, IsNamed entry) :
    tagsOfLines (entries.map written) = entries.map fun entry => (entry.1, Text.trim entry.2) := by
  induction entries with
  | nil => rfl
  | cons entry entries ih =>
    obtain ⟨hentry, hentries⟩ := List.forall_mem_cons.mp h
    rw [List.map_cons, tagsOfLines, TagLine.ofLine?_written hentry]
    -- the next line is a tag line, so nothing is added to the value
    simp only [takeWhile_written hentries, Text.join_singleton, ih hentries, List.map_cons]

/-- A text is not cut exactly if no sentence ends inside it. -/
theorem cutSentence?_eq_none_iff {t : Text} :
    cutSentence? t = none ↔ ∀ before mark blank after, t = before ++ mark :: blank :: after →
      mark = '.' ∨ mark = '?' → Text.isBlank blank = false := by
  induction t with
  | nil => simp [cutSentence?]
  | cons c cs ih =>
    cases cs with
    | nil =>
      refine ⟨?_, fun _ => rfl⟩
      intro _ before mark blank after hcut
      have hlength := congrArg List.length hcut
      simp only [List.length_cons, List.length_append, List.length_nil] at hlength
      omega
    | cons d ds =>
      constructor
      · intro hnone before mark blank after hcut hmark
        rw [cutSentence?] at hnone
        split at hnone
        · cases hnone
        · rename_i hgoes
          cases before with
          | nil =>
            cases hcut
            simpa [hmark] using hgoes
          | cons b before =>
            obtain ⟨-, hcut⟩ := List.cons_eq_cons.mp hcut
            exact ih.mp (Option.map_eq_none_iff.mp hnone) before mark blank after hcut hmark
      · intro h
        have hgoes : ¬ ((c = '.' ∨ c = '?') ∧ Text.isBlank d = true) := by
          rintro ⟨hmark, hblank⟩
          rw [h [] c d ds rfl hmark] at hblank
          cases hblank
        have hrest := ih.mpr fun before mark blank after hcut =>
          h (c :: before) mark blank after (by rw [hcut]; rfl)
        rw [cutSentence?, if_neg hgoes, hrest]
        rfl

/-- Tags that only hold values are put into the table of tags and change nothing else. -/
theorem foldl_addTag_plain {rules : TagRules} {entries : List (Text × Text)}
    (h : ∀ entry ∈ entries, rules.rule? entry.1 = some {}) (d : DocText) :
    entries.foldl (fun d entry => d.addTag rules entry.1 entry.2) d =
      { d with tags := d.tags.insertAll entries } := by
  induction entries generalizing d with
  | nil => rfl
  | cons entry entries ih =>
    obtain ⟨hentry, hentries⟩ := List.forall_mem_cons.mp h
    have hadd : d.addTag rules entry.1 entry.2 =
        { d with tags := d.tags.insert entry.1 entry.2 } := by
      simp [addTag, TagRules.isProjectLevel, hentry]
    rw [List.foldl_cons, hadd, ih hentries]
    rfl

/-- The text of a summary and tag lines. -/
def textOf (summary : Text) (entries : List (Text × Text)) : Text :=
  Text.join "\n" (summary :: entries.map written)

/-- A summary and tags that each fit on a line: the summary is no tag line itself, the tags are
    words, and no line has a line end in it. -/
structure OnLines (summary : Text) (entries : List (Text × Text)) : Prop where
  oneLine : '\n' ∉ summary
  trimmed : Text.trim summary = summary
  plain : TagLine.isTagLine summary = false
  named : ∀ entry ∈ entries, IsNamed entry
  lines : ∀ entry ∈ entries, '\n' ∉ written entry ∧ (written entry).getLast? ≠ some '\r'

namespace OnLines

variable {summary : Text} {entries : List (Text × Text)}

/-- The lines are those that were written; an empty summary alone makes no line. -/
theorem lines_textOf (h : OnLines summary entries) :
    Text.lines (textOf summary entries) = summary :: entries.map written ∨
      summary = [] ∧ entries = [] ∧ Text.lines (textOf summary entries) = [] := by
  have hreturn : summary.getLast? ≠ some '\r' := by
    intro hlast
    exact absurd ((Text.trim_eq_self_iff.mp h.trimmed).2 '\r' hlast) (by decide)
  have hall : ∀ t ∈ summary :: entries.map written, '\n' ∉ t ∧ t.getLast? ≠ some '\r' := by
    refine List.forall_mem_cons.mpr ⟨⟨h.oneLine, hreturn⟩, ?_⟩
    rintro t ht
    obtain ⟨entry, hentry, rfl⟩ := List.mem_map.mp ht
    exact h.lines entry hentry
  by_cases hempty : summary = [] ∧ entries = []
  · obtain ⟨rfl, rfl⟩ := hempty
    exact .inr ⟨rfl, rfl, rfl⟩
  · refine .inl (Text.lines_join hall ?_)
    intro t ht
    cases entries with
    | nil =>
      cases ht
      exact fun hnil => hempty ⟨hnil, rfl⟩
    | cons entry entries =>
      rw [List.map_cons, List.getLast?_cons_cons, ← List.map_cons] at ht
      obtain ⟨last, -, rfl⟩ := List.mem_map.mp (List.mem_of_getLast? ht)
      exact List.cons_ne_nil _ _

/-- The summary is what stands before the first tag line. -/
theorem preamble_textOf (h : OnLines summary entries) :
    preamble (textOf summary entries) = summary := by
  rw [preamble]
  rcases h.lines_textOf with hlines | ⟨rfl, -, hlines⟩
  · rw [hlines, List.takeWhile_cons_of_pos (by rw [h.plain]; rfl), takeWhile_written h.named,
      Text.join_singleton]
  · rw [hlines]
    rfl

/-- The tags have the values they were written with, trimmed. -/
theorem writtenTags_textOf (h : OnLines summary entries) :
    writtenTags (textOf summary entries) =
      entries.map fun entry => (entry.1, Text.trim entry.2) := by
  have hsummary : TagLine.ofLine? summary = none := by
    simpa [TagLine.isTagLine] using h.plain
  rw [writtenTags]
  rcases h.lines_textOf with hlines | ⟨-, rfl, hlines⟩
  · rw [hlines, tagsOfLines, hsummary]
    exact tagsOfLines_written h.named
  · rw [hlines]
    rfl

/-- Tags that are no aliases keep their names. -/
theorem canonicalTags_textOf (h : OnLines summary entries) {rules : TagRules}
    (hcanonical : ∀ entry ∈ entries, rules.canonical entry.1 = entry.1) :
    canonicalTags rules (textOf summary entries) =
      entries.map fun entry => (entry.1, Text.trim entry.2) := by
  rw [canonicalTags, h.writtenTags_textOf, List.map_map]
  refine List.map_congr_left ?_
  intro entry hentry
  exact Prod.ext (hcanonical entry hentry) rfl

/-- A summary that is one sentence and tags that only hold values are read as they were written. -/
theorem read_textOf (h : OnLines summary entries) (hsentence : cutSentence? summary = none)
    {rules : TagRules} (hcanonical : ∀ entry ∈ entries, rules.canonical entry.1 = entry.1)
    (hrules : ∀ entry ∈ entries, rules.rule? entry.1 = some {}) :
    read rules (textOf summary entries) =
        { summary, tags := TagTable.insertAll {} (entries.map fun e => (e.1, Text.trim e.2)) } ∧
      readEvents rules (textOf summary entries) = [] := by
  have hread : ∀ entry ∈ entries.map fun e => (e.1, Text.trim e.2),
      rules.rule? entry.1 = some {} := by
    intro entry hentry
    obtain ⟨e, he, rfl⟩ := List.mem_map.mp hentry
    exact hrules e he
  refine ⟨?_, ?_⟩
  · rw [read, h.preamble_textOf, h.trimmed, splitSummary, hsentence,
      h.canonicalTags_textOf hcanonical]
    exact foldl_addTag_plain hread _
  · rw [readEvents, h.canonicalTags_textOf hcanonical, List.filterMap_eq_nil_iff]
    intro entry hentry
    rw [hread entry hentry]
    rfl

end OnLines

end DocText

end SourceDoc
