import SourceDoc.Proofs.Tag.Written

namespace SourceDoc

namespace Text

/-- A sentence ends inside a text and something follows it. -/
def HasSentenceEnd (t : Text) : Prop :=
  ∃ before mark blank after, t = before ++ mark :: blank :: after ∧ (mark = '.' ∨ mark = '?') ∧
    isBlank blank = true

/-- Whether a sentence ends inside a text is told by each two neighbours. -/
theorem hasSentenceEnd_cons_cons {c d : Char} {cs : Text} : HasSentenceEnd (c :: d :: cs) ↔
    ((c = '.' ∨ c = '?') ∧ isBlank d = true) ∨ HasSentenceEnd (d :: cs) := by
  constructor
  · rintro ⟨before, mark, blank, after, hcut, hmark, hblank⟩
    cases before with
    | nil =>
      cases hcut
      exact .inl ⟨hmark, hblank⟩
    | cons b before =>
      obtain ⟨-, hcut⟩ := List.cons_eq_cons.mp hcut
      exact .inr ⟨before, mark, blank, after, hcut, hmark, hblank⟩
  · rintro (⟨hmark, hblank⟩ | ⟨before, mark, blank, after, hcut, hmark, hblank⟩)
    · exact ⟨[], c, d, cs, rfl, hmark, hblank⟩
    · exact ⟨c :: before, mark, blank, after, by rw [hcut]; rfl, hmark, hblank⟩

theorem not_hasSentenceEnd_singleton (c : Char) : ¬HasSentenceEnd [c] := by
  rintro ⟨before, mark, blank, after, hcut, -⟩
  have hlength := congrArg List.length hcut
  simp only [List.length_cons, List.length_append, List.length_nil] at hlength
  omega

/-- Blanks before a text that ends with something else can be dropped, and are all that is lost. -/
theorem exists_blank_append_trim {t : Text} (ht : t ≠ [])
    (hend : ∀ c ∈ t.getLast?, isBlank c = false) :
    ∃ b, t = b ++ trim t ∧ (∀ c ∈ b, isBlank c = true) ∧ trim t ≠ [] := by
  have hstart : trimStart t ≠ [] := by
    rw [trimStart, Ne, List.dropWhile_eq_nil_iff]
    intro hblank
    have hlast := hend _ (List.getLast?_eq_some_getLast ht)
    rw [hblank _ (List.getLast_mem ht)] at hlast
    cases hlast
  have hparts : t.takeWhile isBlank ++ trimStart t = t := List.takeWhile_append_dropWhile
  have hlast : ∀ d ∈ (trimStart t).getLast?, isBlank d = false := by
    intro d hd
    apply hend d
    rw [← hparts, List.getLast?_append_of_ne_nil _ hstart]
    exact hd
  have htrim : trim t = trimStart t := trimEnd_eq_self_iff.mpr hlast
  refine ⟨t.takeWhile isBlank, ?_, ?_, ?_⟩
  · rw [htrim, hparts]
  · exact fun d hd => List.mem_takeWhile_imp hd
  · rwa [htrim]

end Text

namespace DocText

open Text (HasSentenceEnd)

variable {t sentence rest : Text}

/-- A text is cut exactly if a sentence ends inside it. -/
theorem cutSentence?_isSome_iff : (cutSentence? t).isSome = true ↔ HasSentenceEnd t := by
  rw [← not_iff_not, Bool.not_eq_true, Option.isSome_eq_false_iff, Option.isNone_iff_eq_none,
    cutSentence?_eq_none_iff, HasSentenceEnd]
  push Not
  simp only [Bool.not_eq_true, ne_eq]

/-- What a text is cut into: a sentence up to its mark, in which no other one ends, and what follows
    it from a blank on. -/
structure FirstSentence (t sentence rest : Text) : Prop where
  joined : t = sentence ++ rest
  mark : ∃ c, sentence.getLast? = some c ∧ (c = '.' ∨ c = '?')
  blank : ∃ c, rest.head? = some c ∧ Text.isBlank c = true
  first : ¬HasSentenceEnd sentence

/-- The cut is made at the first mark with a blank behind it, by the recursion that looks for it. -/
theorem firstSentence_of_cutSentence? (h : cutSentence? t = some (sentence, rest)) :
    FirstSentence t sentence rest := by
  induction t using cutSentence?.induct generalizing sentence with
  | case1 => cases h
  | case2 c => cases h
  | case3 c d cs hends =>
    rw [cutSentence?, if_pos hends] at h
    cases h
    exact ⟨rfl, ⟨c, rfl, hends.1⟩, ⟨d, rfl, hends.2⟩, Text.not_hasSentenceEnd_singleton c⟩
  | case4 c d cs hgoes ih =>
    rw [cutSentence?, if_neg hgoes] at h
    obtain ⟨⟨inner, behind⟩, hcut, heq⟩ := Option.map_eq_some_iff.mp h
    cases heq
    have hinner := ih hcut
    -- the sentence goes on with the character behind `c`, so it does not end between the two
    obtain ⟨more, rfl⟩ : ∃ more, inner = d :: more := by
      cases inner with
      | nil =>
        obtain ⟨_, hlast, -⟩ := hinner.mark
        cases hlast
      | cons e more =>
        obtain ⟨rfl, -⟩ := List.cons_eq_cons.mp hinner.joined
        exact ⟨more, rfl⟩
    refine ⟨by rw [hinner.joined]; rfl, ?_, hinner.blank, ?_⟩
    · rw [List.getLast?_cons_cons]
      exact hinner.mark
    · rw [Text.hasSentenceEnd_cons_cons]
      exact not_or_intro hgoes hinner.first

/-- A first sentence starts where the text starts and ends with its mark, so it is trimmed if the
    text is. -/
theorem FirstSentence.trim_sentence (h : FirstSentence t sentence rest)
    (hstart : ∀ c ∈ t.head?, Text.isBlank c = false) : Text.trim sentence = sentence := by
  obtain ⟨mark, hlast, hmark⟩ := h.mark
  have hsentence : sentence ≠ [] := by
    rintro rfl
    cases hlast
  refine Text.trim_eq_self_iff.mpr ⟨?_, ?_⟩
  · rwa [h.joined, List.head?_append_of_ne_nil _ hsentence] at hstart
  · intro c hc
    rw [hlast] at hc
    cases hc
    rcases hmark with rfl | rfl <;> decide

/-- Behind a first sentence come blanks, and something else if the text does not end with them. -/
theorem FirstSentence.exists_blank_append_trim (h : FirstSentence t sentence rest)
    (hend : ∀ c ∈ t.getLast?, Text.isBlank c = false) :
    ∃ w, rest = w ++ Text.trim rest ∧ (∀ c ∈ w, Text.isBlank c = true) ∧ w ≠ [] ∧
      Text.trim rest ≠ [] := by
  obtain ⟨blank, hhead, hblank⟩ := h.blank
  have hrest : rest ≠ [] := by
    rintro rfl
    cases hhead
  have hrestEnd : ∀ c ∈ rest.getLast?, Text.isBlank c = false := by
    rwa [h.joined, List.getLast?_append_of_ne_nil _ hrest] at hend
  obtain ⟨w, hw, hblanks, hdescription⟩ := Text.exists_blank_append_trim hrest hrestEnd
  refine ⟨w, hw, hblanks, ?_, hdescription⟩
  rintro rfl
  rw [List.nil_append] at hw
  have hfirst := (Text.trim_eq_self_iff.mp hw.symm).1 blank hhead
  rw [hblank] at hfirst
  cases hfirst

/-- Splitting a trimmed text loses nothing but blanks between the summary and the description. No
    sentence ends inside the summary. There is a description exactly if a sentence ends inside the
    text, and then the summary is a whole sentence and stands apart. -/
theorem splitSummary_recombines {p : Text} (hstart : ∀ c ∈ p.head?, Text.isBlank c = false)
    (hend : ∀ c ∈ p.getLast?, Text.isBlank c = false) :
    ∃ w, p = (splitSummary p).1 ++ w ++ (splitSummary p).2 ∧
      (∀ c ∈ w, Text.isBlank c = true) ∧
      ¬HasSentenceEnd (splitSummary p).1 ∧
      ((splitSummary p).2 ≠ [] ↔ HasSentenceEnd p) ∧
      (HasSentenceEnd p → w ≠ [] ∧
        ∃ c, (splitSummary p).1.getLast? = some c ∧ (c = '.' ∨ c = '?')) := by
  rw [splitSummary]
  cases hcut : cutSentence? p with
  | none =>
    have hnone : ¬HasSentenceEnd p := by
      rw [← cutSentence?_isSome_iff, hcut]
      exact Bool.false_ne_true
    refine ⟨[], by simp, by simp, hnone, ?_, fun h => absurd h hnone⟩
    exact iff_of_false (fun h => h rfl) hnone
  | some parts =>
    obtain ⟨sentence, rest⟩ := parts
    have hparts := firstSentence_of_cutSentence? hcut
    have hhas : HasSentenceEnd p := by
      rw [← cutSentence?_isSome_iff, hcut]
      rfl
    obtain ⟨w, hw, hblanks, hwne, hdescription⟩ := hparts.exists_blank_append_trim hend
    dsimp only
    rw [hparts.trim_sentence hstart]
    refine ⟨w, ?_, hblanks, hparts.first, iff_of_true hdescription hhas, ?_⟩
    · rw [List.append_assoc, ← hw]
      exact hparts.joined
    · exact fun _ => ⟨hwne, hparts.mark⟩

/-- Marks stand at the end of the text and next to each other, and more than one blank follows. -/
theorem splitSummary_recombines_marks :
    let p : Text := "v1.2 ready?!. \n See the docs. Done."
    let summary : Text := "v1.2 ready?!."
    let description : Text := "See the docs. Done."
    splitSummary p = (summary, description) ∧
      ∃ w, p = summary ++ w ++ description ∧ w ≠ [] ∧ (∀ c ∈ w, Text.isBlank c = true) ∧
        ¬HasSentenceEnd summary := by
  intro p summary description
  have hsplit : splitSummary p = (summary, description) := by decide
  have hhead : ∀ c ∈ p.head?, Text.isBlank c = false := by
    intro c hc
    cases Option.some.inj hc
    decide
  have hlast : ∀ c ∈ p.getLast?, Text.isBlank c = false := by
    intro c hc
    cases Option.some.inj hc
    decide
  obtain ⟨w, hjoined, hblanks, hfirst, -, hends⟩ := splitSummary_recombines hhead hlast
  have hhas : HasSentenceEnd p := by
    rw [← cutSentence?_isSome_iff]
    decide
  rw [hsplit] at hjoined hfirst
  exact ⟨hsplit, w, hjoined, (hends hhas).1, hblanks, hfirst⟩

end DocText

end SourceDoc
