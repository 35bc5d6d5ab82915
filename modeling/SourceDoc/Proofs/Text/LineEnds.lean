import SourceDoc.Proofs.Text.Lines

namespace SourceDoc

namespace Text

/-- The text with a carriage return before each line feed. -/
def withReturns (t : Text) : Text :=
  t.flatMap fun c => if c = '\n' then ['\r', '\n'] else [c]

/-- No backslash stands directly before a line feed. -/
def EscapesNoFeed (t : Text) : Prop :=
  ¬ ['\\', '\n'] <:+: t

/-- Decided on the text, so that concrete sources can be checked for it. -/
instance (t : Text) : Decidable (EscapesNoFeed t) :=
  inferInstanceAs (Decidable (¬ _))

/-- What may be left of a line end behind which a text is cut off: nothing, or a carriage return. -/
def IsStop (stop : Text) : Prop :=
  stop = [] ∨ stop = ['\r']

/-- The second text is the first one with a carriage return before some of its line feeds, and with
    `stop` at its end. The first text has no carriage returns. The relation follows the recursion of
    the texts, so that every cut of one can be followed in the other by induction. -/
inductive Returned (stop : Text) : Text → Text → Prop
  | stop : Returned stop [] stop
  | char {c : Char} (hc : c ≠ '\r') {t u : Text} (h : Returned stop t u) :
      Returned stop (c :: t) (c :: u)
  | feed {t u : Text} (h : Returned stop t u) : Returned stop ('\n' :: t) ('\r' :: '\n' :: u)

/-- The second text is the first one with carriage returns before some of its line feeds, and maybe
    one at its end. -/
def SameLines (t u : Text) : Prop :=
  Returned [] t u ∨ Returned ['\r'] t u

/-- What is left of a line end is trimmed away with other blanks. -/
theorem IsStop.all_isBlank {stop : Text} (hstop : IsStop stop) : stop.all isBlank = true := by
  rcases hstop with rfl | rfl <;> decide

theorem IsStop.newlines_eq_zero {stop : Text} (hstop : IsStop stop) : newlines stop = 0 := by
  rcases hstop with rfl | rfl <;> rfl

theorem EscapesNoFeed.of_suffix {t u : Text} (h : EscapesNoFeed t) (hu : u <:+ t) :
    EscapesNoFeed u := by
  intro hinside
  exact h (hinside.trans hu.isInfix)

theorem returned_self {t : Text} (ht : '\r' ∉ t) : Returned [] t t := by
  induction t with
  | nil => exact .stop
  | cons c t ih =>
    obtain ⟨hc, ht⟩ := List.ne_and_not_mem_of_not_mem_cons ht
    exact .char (Ne.symm hc) (ih ht)

/-- All line ends may gain a carriage return at once. -/
theorem returned_withReturns {t : Text} (ht : '\r' ∉ t) : Returned [] t (withReturns t) := by
  induction t with
  | nil => exact .stop
  | cons c t ih =>
    obtain ⟨hc, hrest⟩ := List.ne_and_not_mem_of_not_mem_cons ht
    by_cases hfeed : c = '\n'
    · subst hfeed
      exact .feed (ih hrest)
    · have hcons : withReturns (c :: t) = c :: withReturns t := by
        simp [withReturns, hfeed]
      rw [hcons]
      exact .char (Ne.symm hc) (ih hrest)

/-- The two ways in which texts may stop are put together where the difference no longer counts. -/
theorem Returned.sameLines {stop t u : Text} (hstop : IsStop stop)
    (h : Returned stop t u) : SameLines t u := by
  rcases hstop with rfl | rfl
  · exact .inl h
  · exact .inr h

namespace Returned

variable {stop t u : Text}

/-- Carriage returns are in the second text only. -/
theorem return_not_mem (h : Returned stop t u) : '\r' ∉ t := by
  induction h with
  | stop => exact List.not_mem_nil
  | char hc _ ih => exact List.not_mem_cons_of_ne_of_not_mem (Ne.symm hc) ih
  | feed _ ih => exact List.not_mem_cons_of_ne_of_not_mem (by decide) ih

/-- On a single line only the end can differ. -/
theorem eq_append (h : Returned stop t u) (ht : '\n' ∉ t) : u = t ++ stop := by
  induction h with
  | stop => rfl
  | char _ _ ih =>
    rw [ih (List.not_mem_of_not_mem_cons ht)]
    rfl
  | feed _ _ => exact absurd List.mem_cons_self ht

/-- Both texts have the same line feeds, but for those they stop with. So tokens end on the same
    lines. -/
theorem newlines_eq (h : Returned stop t u) : newlines u = newlines t + newlines stop := by
  induction h with
  | stop => simp [newlines]
  | @char c hc t u _ ih =>
    rw [newlines, newlines, List.count_cons, List.count_cons, ← newlines, ← newlines, ih]
    omega
  | feed _ ih =>
    have hreturn : '\r' ≠ '\n' := by decide
    simp only [newlines, List.count_cons_of_ne hreturn, List.count_cons_self] at ih ⊢
    omega

/-- A start without line feeds of the first text is the same in the second. -/
theorem exists_of_append {s : Text} (hs : '\n' ∉ s) (h : Returned stop (s ++ t) u) :
    ∃ v, u = s ++ v ∧ Returned stop t v := by
  induction s generalizing u with
  | nil => exact ⟨u, rfl, h⟩
  | cons c s ih =>
    obtain ⟨hc, hs⟩ := List.ne_and_not_mem_of_not_mem_cons hs
    cases h with
    | char _ h =>
      obtain ⟨v, rfl, hv⟩ := ih hs h
      exact ⟨v, rfl, hv⟩
    | feed h => exact absurd rfl hc

/-- A start without line ends of the second text is the same in the first. -/
theorem exists_of_eq_append (hstop : IsStop stop) {s v : Text} (hs : '\r' ∉ s)
    (h : Returned stop t (s ++ v)) : ∃ r, t = s ++ r ∧ Returned stop r v := by
  induction s generalizing t with
  | nil => exact ⟨t, rfl, h⟩
  | cons c s ih =>
    obtain ⟨hc, hs⟩ := List.ne_and_not_mem_of_not_mem_cons hs
    generalize hu : c :: s ++ v = u at h
    cases h with
    | stop =>
      rcases hstop with rfl | rfl
      · cases hu
      · exact absurd (List.cons_eq_cons.mp hu).1.symm hc
    | char _ h =>
      obtain ⟨rfl, rfl⟩ := List.cons_eq_cons.mp hu
      obtain ⟨r, rfl, hr⟩ := ih hs h
      exact ⟨r, rfl, hr⟩
    | feed h => exact absurd (List.cons_eq_cons.mp hu).1.symm hc

/-- Both texts start with the same markers, since a marker has no line end in it. -/
theorem prefix_iff (hstop : IsStop stop) {s : Text} (hfeed : '\n' ∉ s)
    (hreturn : '\r' ∉ s) (h : Returned stop t u) : s <+: u ↔ s <+: t := by
  constructor
  · rintro ⟨v, rfl⟩
    obtain ⟨r, rfl, -⟩ := h.exists_of_eq_append hstop hreturn
    exact List.prefix_append s r
  · rintro ⟨r, rfl⟩
    obtain ⟨v, rfl, -⟩ := h.exists_of_append hfeed
    exact List.prefix_append s v

theorem eq_iff {s : Text} (hfeed : '\n' ∉ s) (hreturn : '\r' ∉ s) (h : Returned [] t u) :
    u = s ↔ t = s := by
  constructor
  · rintro rfl
    rw [← List.append_nil u] at h
    obtain ⟨r, rfl, hr⟩ := h.exists_of_eq_append (.inl rfl) hreturn
    cases hr
    exact List.append_nil u
  · rintro rfl
    rw [h.eq_append hfeed, List.append_nil]

/-- A class that holds line feeds and carriage returns, or none of them, is left at the same
    place. -/
theorem dropWhile {p : Char → Bool} (hp : p '\r' = p '\n') (hstop : stop.dropWhile p = stop)
    (h : Returned stop t u) : Returned stop (t.dropWhile p) (u.dropWhile p) := by
  induction h with
  | stop =>
    rw [hstop]
    exact .stop
  | @char c hc t u h ih =>
    rw [List.dropWhile_cons, List.dropWhile_cons]
    split
    · exact ih
    · exact .char hc h
  | feed h ih =>
    rw [List.dropWhile_cons, List.dropWhile_cons, List.dropWhile_cons, hp]
    split
    · exact ih
    · exact .feed h

theorem dropWhile_beq (hstop : IsStop stop) {c : Char} (hfeed : c ≠ '\n')
    (hreturn : c ≠ '\r') (h : Returned stop t u) :
    Returned stop (t.dropWhile (· == c)) (u.dropWhile (· == c)) := by
  apply dropWhile _ _ h
  · rw [beq_false_of_ne (Ne.symm hfeed), beq_false_of_ne (Ne.symm hreturn)]
  · rcases hstop with rfl | rfl
    · rfl
    · rw [List.dropWhile_cons, beq_false_of_ne (Ne.symm hreturn)]
      rfl

theorem dropSpace (hstop : IsStop stop) (h : Returned stop t u) :
    Returned stop (Text.dropSpace t) (Text.dropSpace u) := by
  cases h with
  | stop =>
    rcases hstop with rfl | rfl
    · exact .stop
    · exact .stop
  | @char c hc t u h =>
    by_cases hspace : c = ' '
    · subst hspace
      exact h
    · have hkeep (v : Text) : Text.dropSpace (c :: v) = c :: v := by
        unfold Text.dropSpace
        split
        · rename_i hcons
          exact absurd (List.cons_eq_cons.mp hcons).1 hspace
        · rfl
      rw [hkeep, hkeep]
      exact .char hc h
  | feed h => exact .feed h

/-- If what is accepted does not depend on line ends, the end that is dropped does not either. With
    it the stop may be gone. -/
theorem dropLongestEnd {accepts : Text → Bool}
    (haccepts : ∀ {t u : Text}, Returned stop t u → accepts u = accepts t)
    (hstop : Text.dropLongestEnd accepts stop = [] ∨ Text.dropLongestEnd accepts stop = stop)
    (h : Returned stop t u) :
    Returned [] (Text.dropLongestEnd accepts t) (Text.dropLongestEnd accepts u) ∨
      Returned stop (Text.dropLongestEnd accepts t) (Text.dropLongestEnd accepts u) := by
  induction h with
  | stop =>
    rcases hstop with hstop | hstop
    · rw [hstop]
      exact .inl .stop
    · rw [hstop]
      exact .inr .stop
  | @char c hc t u h ih =>
    rw [Text.dropLongestEnd, Text.dropLongestEnd, haccepts (.char hc h)]
    split
    · exact .inl .stop
    · exact ih.imp (.char hc) (.char hc)
  | @feed t u h ih =>
    have hfeed : '\n' ≠ '\r' := by decide
    rw [Text.dropLongestEnd, Text.dropLongestEnd, Text.dropLongestEnd, haccepts (.feed h),
      haccepts (.char hfeed h)]
    split
    · exact .inl .stop
    · exact ih.imp .feed .feed

/-- Two pairs of texts may be put together across a line feed, whatever the first one stops with. -/
theorem append_newline (hstop : IsStop stop) (h : Returned stop t u)
    {end' t' u' : Text} (h' : Returned end' t' u') :
    Returned end' (t ++ '\n' :: t') (u ++ '\n' :: u') := by
  have hfeed : '\n' ≠ '\r' := by decide
  induction h with
  | stop =>
    rcases hstop with rfl | rfl
    · exact .char hfeed h'
    · exact .feed h'
  | char hc _ ih => exact .char hc ih
  | feed _ ih => exact .feed ih

end Returned

/-- Markers are found at the start of both texts or of none, also where one has a return at its
    end. -/
theorem SameLines.prefix_iff {s t u : Text} (hfeed : '\n' ∉ s) (hreturn : '\r' ∉ s)
    (h : SameLines t u) : s <+: u ↔ s <+: t := by
  rcases h with h | h
  · exact h.prefix_iff (.inl rfl) hfeed hreturn
  · exact h.prefix_iff (.inr rfl) hfeed hreturn

theorem SameLines.head?_eq_some_iff {c : Char} (hfeed : c ≠ '\n') (hreturn : c ≠ '\r')
    {t u : Text} (h : SameLines t u) : u.head? = some c ↔ t.head? = some c := by
  have hstarts (v : Text) : v.head? = some c ↔ [c] <+: v := by
    rw [List.head?_eq_some_iff]
    exact ⟨fun ⟨rest, hrest⟩ => ⟨rest, hrest.symm⟩, fun ⟨rest, hrest⟩ => ⟨rest, hrest.symm⟩⟩
  rw [hstarts, hstarts]
  exact h.prefix_iff (by simpa using Ne.symm hfeed) (by simpa using Ne.symm hreturn)

theorem SameLines.isPrefixOf_eq {s t u : Text} (hfeed : '\n' ∉ s) (hreturn : '\r' ∉ s)
    (h : SameLines t u) : s.isPrefixOf u = s.isPrefixOf t := by
  rw [Bool.eq_iff_iff, List.isPrefixOf_iff_prefix, List.isPrefixOf_iff_prefix]
  exact h.prefix_iff hfeed hreturn

theorem SameLines.append_newline {t u t' u' : Text} (h : SameLines t u) (h' : SameLines t' u') :
    SameLines (t ++ '\n' :: t') (u ++ '\n' :: u') := by
  rcases h with h | h
  · exact h'.imp (h.append_newline (.inl rfl)) (h.append_newline (.inl rfl))
  · exact h'.imp (h.append_newline (.inr rfl)) (h.append_newline (.inr rfl))

/-- Texts that have the same lines each have them also when they are put on lines of their own. -/
theorem SameLines.join {ts us : List Text} (h : List.Forall₂ SameLines ts us) :
    SameLines (Text.join "\n" ts) (Text.join "\n" us) := by
  induction h with
  | nil => exact .inl .stop
  | @cons t u ts us h hrest ih =>
    cases hrest with
    | nil =>
      rw [join_singleton, join_singleton]
      exact h
    | cons =>
      rw [join_cons_cons, join_cons_cons]
      exact h.append_newline ih

/-- Pieces between line feeds, of which any may have gained a carriage return. -/
inductive PiecesAlike (stop : Text) : List Text → List Text → Prop
  | last {p : Text} (hp : '\r' ∉ p) : PiecesAlike stop [p] [p ++ stop]
  | cons {p q : Text} (hp : '\r' ∉ p) (hq : q = p ∨ q = p ++ ['\r']) {ps qs : List Text}
      (h : PiecesAlike stop ps qs) : PiecesAlike stop (p :: ps) (q :: qs)

/-- Lines that are the same, up to a carriage return at the end of the last one or on a further
    line. -/
inductive LinesAlike : List Text → List Text → Prop
  | same (ls : List Text) : LinesAlike ls ls
  | added : LinesAlike [] [['\r']]
  | last (l : Text) : LinesAlike [l] [l ++ ['\r']]
  | cons (l : Text) {ls ms : List Text} (h : LinesAlike ls ms) : LinesAlike (l :: ls) (l :: ms)

/-- Splitting at line feeds leaves the returns at the ends of pieces. -/
theorem Returned.piecesAlike {stop t u : Text} (hstop : '\n' ∉ stop) (h : Returned stop t u) :
    PiecesAlike stop (split '\n' t) (split '\n' u) := by
  induction h with
  | stop =>
    rw [split_of_not_mem hstop]
    exact .last List.not_mem_nil
  | @char c hc t u h ih =>
    rw [split, split]
    by_cases hfeed : c = '\n'
    · rw [if_pos hfeed, if_pos hfeed]
      exact .cons List.not_mem_nil (.inl rfl) ih
    · rw [if_neg hfeed, if_neg hfeed]
      -- the character belongs to the first piece, which may be the only one
      have hnot {p : Text} (hp : '\r' ∉ p) : '\r' ∉ c :: p :=
        List.not_mem_cons_of_ne_of_not_mem (Ne.symm hc) hp
      generalize split '\n' t = ps at ih
      generalize split '\n' u = qs at ih
      cases ih with
      | last hp => exact .last (hnot hp)
      | cons hp hq h =>
        apply PiecesAlike.cons (hnot hp) _ h
        rcases hq with rfl | rfl
        · exact .inl rfl
        · exact .inr rfl
  | feed h ih => exact .cons List.not_mem_nil (.inr rfl) ih

theorem dropReturn_of_not_mem {t : Text} (ht : '\r' ∉ t) : dropReturn t = t := by
  unfold dropReturn
  split
  · rename_i hlast
    exact absurd (List.mem_of_getLast? hlast) ht
  · rfl

theorem dropReturn_concat (t : Text) : dropReturn (t ++ ['\r']) = t := by
  simp [dropReturn]

namespace PiecesAlike

variable {stop : Text} {ps qs : List Text}

theorem ne_nil (h : PiecesAlike stop ps qs) : ps ≠ [] ∧ qs ≠ [] := by
  cases h with
  | last hp => exact ⟨List.cons_ne_nil _ _, List.cons_ne_nil _ _⟩
  | cons hp hq h => exact ⟨List.cons_ne_nil _ _, List.cons_ne_nil _ _⟩

/-- A piece that is not the last one gives the same line in both texts. -/
theorem linesOfPieces_cons (h : PiecesAlike stop ps qs) {p q : Text} (hp : '\r' ∉ p)
    (hq : q = p ∨ q = p ++ ['\r']) :
    linesOfPieces (p :: ps) = p :: linesOfPieces ps ∧
      linesOfPieces (q :: qs) = p :: linesOfPieces qs := by
  have hps := linesOfPieces_append [p] h.ne_nil.1
  have hqs := linesOfPieces_append [q] h.ne_nil.2
  have hreturn : dropReturn q = p := by
    rcases hq with rfl | rfl
    · exact dropReturn_of_not_mem hp
    · exact dropReturn_concat p
  rw [List.map_singleton, dropReturn_of_not_mem hp] at hps
  rw [List.map_singleton, hreturn] at hqs
  exact ⟨hps, hqs⟩

/-- If nothing is left over at the end, the lines are the same ones, the last one included. -/
theorem linesOfPieces_eq (h : PiecesAlike [] ps qs) : linesOfPieces qs = linesOfPieces ps := by
  induction h with
  | last hp => rw [List.append_nil]
  | cons hp hq h ih =>
    obtain ⟨hps, hqs⟩ := h.linesOfPieces_cons hp hq
    rw [hps, hqs, ih]

/-- A return left over at the end shows there, in the last line or on a further one, and nowhere
    else. -/
theorem linesAlike (h : PiecesAlike ['\r'] ps qs) :
    LinesAlike (linesOfPieces ps) (linesOfPieces qs) := by
  induction h with
  | @last p hp =>
    cases p with
    | nil => exact .added
    | cons c p => exact .last (c :: p)
  | cons hp hq h ih =>
    obtain ⟨hps, hqs⟩ := h.linesOfPieces_cons hp hq
    rw [hps, hqs]
    exact .cons _ ih

theorem return_not_mem_linesOfPieces (h : PiecesAlike stop ps qs) :
    ∀ l ∈ linesOfPieces ps, '\r' ∉ l := by
  induction h with
  | @last p hp =>
    intro l hl
    rw [linesOfPieces] at hl
    split at hl
    · cases hl
    · exact List.mem_singleton.mp hl ▸ hp
  | cons hp hq h ih =>
    rw [(h.linesOfPieces_cons hp hq).1]
    exact List.forall_mem_cons.mpr ⟨hp, ih⟩

end PiecesAlike

/-- Line ends are dropped with their returns, so the lines do not show them. -/
theorem Returned.lines_eq {t u : Text} (h : Returned [] t u) : lines u = lines t :=
  (h.piecesAlike List.not_mem_nil).linesOfPieces_eq

theorem return_not_mem_lines {t : Text} (ht : '\r' ∉ t) : ∀ l ∈ lines t, '\r' ∉ l :=
  ((returned_self ht).piecesAlike List.not_mem_nil).return_not_mem_linesOfPieces

/-- However both texts stop, their lines differ at most in one return at the end. -/
theorem SameLines.linesAlike {t u : Text} (h : SameLines t u) : LinesAlike (lines t) (lines u) := by
  rcases h with h | h
  · rw [h.lines_eq]
    exact .same _
  · exact (h.piecesAlike (by decide)).linesAlike

end Text

end SourceDoc
