import SourceDoc.Proofs.Text.Lines
import SourceDoc.Proofs.Token.Alike

namespace SourceDoc

namespace Token

/-- A token of code that is neither a word nor an operator or bracket: a literal, or a line of the
    preprocessor. Line ends occur in such tokens only, and no name is taken from them. -/
structure IsPassive (t : Token) : Prop where
  word : (t.kind == .word) = false
  other : ∀ s : Text, s.head? ≠ some '#' → t.isOther s = false

theorem IsPassive.isWord {t : Token} (ht : t.IsPassive) (s : Text) : t.isWord s = false := by
  rw [Token.isWord, ht.word, Bool.false_and]

/-- A line of the preprocessor starts with its number sign, as no operator does. -/
theorem IsPassive.text_ne {t : Token} (ht : t.IsPassive) (hkind : t.kind = .other) {s : Text}
    (hs : s.head? ≠ some '#') : t.text ≠ s := by
  have hother := ht.other s hs
  simpa [isOther, hkind] using hother

/-- A line of the preprocessor is in none of the lists of marks that readers look for. -/
theorem IsPassive.contains_text {t : Token} (ht : t.IsPassive) (hkind : t.kind = .other)
    {marks : List Text} (hmarks : ∀ s ∈ marks, s.head? ≠ some '#') :
    marks.contains t.text = false := by
  rw [List.contains_eq_mem, decide_eq_false_iff_not]
  intro hmem
  exact ht.text_ne hkind (hmarks _ hmem) rfl

/-- A line that starts with a number sign is passive, with or without a return at its end. -/
theorem isPassive_of_head {text : Text} (hhead : text.head? = some '#') (line : Nat) :
    IsPassive ⟨.other, text, line⟩ where
  word := rfl
  other := by
    intro s hs
    have hne : text ≠ s := by
      rintro rfl
      exact hs hhead
    simp [isOther, hne]

theorem isPassive_literal (text : Text) (line : Nat) : IsPassive ⟨.str, text, line⟩ where
  word := rfl
  other := by simp [isOther]

namespace Alike

variable {lang : Language} {t u : Token}

/-- Code that is not the same is passive. -/
theorem eq_or_isPassive (h : Alike lang t u) (ht : t.isCode = true) :
    u = t ∨ t.IsPassive ∧ u.IsPassive := by
  cases h with
  | same => exact .inl rfl
  | line hhead line =>
    refine .inr ⟨isPassive_of_head hhead line, isPassive_of_head ?_ line⟩
    rw [List.head?_append, hhead]
    rfl
  | literal => exact .inr ⟨isPassive_literal _ _, isPassive_literal _ _⟩
  | comment => cases ht
  | space => cases ht

theorem isWord_eq (h : Alike lang t u) (ht : t.isCode = true) (s : Text) :
    u.isWord s = t.isWord s := by
  rcases h.eq_or_isPassive ht with rfl | ⟨ht, hu⟩
  · rfl
  · rw [ht.isWord, hu.isWord]

theorem isOther_eq (h : Alike lang t u) (ht : t.isCode = true) {s : Text}
    (hs : s.head? ≠ some '#') : u.isOther s = t.isOther s := by
  rcases h.eq_or_isPassive ht with rfl | ⟨ht, hu⟩
  · rfl
  · rw [ht.other s hs, hu.other s hs]

end Alike

end Token

namespace C

/-- The name of a macro ends before the return, which can not be part of it. -/
theorem macroNamed?_concat_return (t : Text) : macroNamed? (t ++ ['\r']) = macroNamed? t := by
  have hword : Text.isWordChar '\r' = false := by decide +kernel
  cases t with
  | nil => rfl
  | cons c cs =>
    unfold macroNamed?
    simp only [List.cons_append, TagLine.takeWhile_concat_of_neg hword,
      TagLine.dropWhile_concat_of_neg hword]
    split
    · cases hrest : cs.dropWhile Text.isWordChar with
      | nil => rfl
      | cons d ds =>
        by_cases hopen : d = '('
        · subst hopen
          have hcut : Text.cutBefore? (· == ')') (ds ++ ['\r']) =
              (Text.cutBefore? (· == ')') ds).map fun cut => (cut.1, cut.2 ++ ['\r']) :=
            Text.cutBefore?_concat (by decide) ds
          simp only [List.cons_append, hcut]
          cases Text.cutBefore? (· == ')') ds with
          | none => rfl
          | some cut => rfl
        · simp [hopen]
    · rfl

/-- The blanks that a text begins with end before a carriage return at its end, or with it. -/
theorem dropWhile_isBlank_concat_return (t : Text) :
    (t ++ ['\r']).dropWhile Text.isBlank = t.dropWhile Text.isBlank ∨
      (t ++ ['\r']).dropWhile Text.isBlank = t.dropWhile Text.isBlank ++ ['\r'] := by
  rw [List.dropWhile_append]
  split
  · rename_i hempty
    rw [List.isEmpty_iff.mp hempty]
    exact .inl rfl
  · exact .inr rfl

/-- The macro a directive defines, given what follows the number sign and the blanks. -/
def macroOfDirective? (directive : Text) : Option Declaration :=
  if ("define" : Text).isPrefixOf directive then
    let after := directive.drop 6
    if after.head?.any Text.isBlank then macroNamed? (after.dropWhile Text.isBlank) else none
  else none

/-- A directive is the same one with a return at its end. -/
theorem macroOfDirective?_concat_return (t : Text) :
    macroOfDirective? (t ++ ['\r']) = macroOfDirective? t := by
  have hnamed (after : Text) : macroNamed? ((after ++ ['\r']).dropWhile Text.isBlank) =
      macroNamed? (after.dropWhile Text.isBlank) := by
    rcases dropWhile_isBlank_concat_return after with h | h
    · rw [h]
    · rw [h, macroNamed?_concat_return]
  have hstarts : ("define" : Text).isPrefixOf (t ++ ['\r']) = ("define" : Text).isPrefixOf t := by
    rw [Bool.eq_iff_iff, List.isPrefixOf_iff_prefix, List.isPrefixOf_iff_prefix,
      List.prefix_concat_iff, or_iff_right]
    intro h
    have hreturn : '\r' ∈ "define".toList := by
      rw [h]
      simp
    revert hreturn
    decide
  unfold macroOfDirective?
  rw [hstarts]
  split
  · rename_i hdefine
    obtain ⟨after, rfl⟩ := List.isPrefixOf_iff_prefix.mp hdefine
    have hdrop (u : Text) : ("define".toList ++ u).drop 6 = u := rfl
    rw [List.append_assoc, hdrop, hdrop]
    dsimp only
    rw [hnamed]
    cases after with
    | nil => rfl
    | cons c cs => rfl
  · rfl

theorem macro?_concat_return {t : Text} (ht : t.head? = some '#') :
    macro? (t ++ ['\r']) = macro? t := by
  obtain ⟨rest, rfl⟩ := List.head?_eq_some_iff.mp ht
  have hmacro (u : Text) : macro? ('#' :: u) = macroOfDirective? (u.dropWhile Text.isBlank) := rfl
  rw [List.cons_append, hmacro, hmacro]
  rcases dropWhile_isBlank_concat_return rest with h | h
  · rw [h]
  · rw [h, macroOfDirective?_concat_return]

/-- In a parameter list passive tokens are passed over. -/
theorem stepParams_of_isPassive {t : Token} (ht : t.IsPassive) (d : Declaration.Draft) :
    stepParams d t = .reading d := by
  rw [stepParams, ht.word, ht.other "(" (by decide), ht.other ")" (by decide),
    ht.other "," (by decide), ht.other "..." (by decide)]
  rfl

/-- In the type of a declaration they end the reading. -/
theorem stepWords_of_isPassive {t : Token} (ht : t.IsPassive) (d : Declaration.Draft) :
    stepWords d t = .failed := by
  unfold stepWords
  split
  · rename_i hkind
    have hword := ht.word
    rw [hkind] at hword
    cases hword
  · rename_i hkind
    have htypes : typeMarks.contains t.text = false := ht.contains_text hkind (by decide)
    have hends : variableEnds.contains t.text = false := ht.contains_text hkind (by decide)
    have hopen : t.text ≠ "(".toList := ht.text_ne hkind (by decide)
    have hbrace : t.text ≠ "\x7b".toList := ht.text_ne hkind (by decide)
    simp only [htypes, hends, hopen, hbrace, Bool.false_eq_true, if_false, false_and, ite_self]
  · rfl

/-- Of a passive token only a preprocessor line is looked at, before any declaration. -/
theorem step_eq {t u : Token} (h : Token.Alike .c t u) (ht : t.isCode = true)
    (state : Declaration.Progress) : step state u = step state t := by
  cases state with
  | awaiting isLocal =>
    cases h with
    | same => rfl
    | @line text hhead line =>
      have hheads : (text ++ ['\r']).head? = some '#' := by
        rw [List.head?_append, hhead]
        rfl
      simp only [step, stepAwaiting, hhead, hheads, macro?_concat_return hhead]
    | literal => rfl
    | comment => cases ht
    | space => cases ht
  | reading d =>
    rcases h.eq_or_isPassive ht with rfl | ⟨ht, hu⟩
    · rfl
    · rw [step, step, stepParams_of_isPassive ht, stepParams_of_isPassive hu,
        stepWords_of_isPassive ht, stepWords_of_isPassive hu]
  | done declaration => rfl

end C

namespace Lua

variable {t u : Token}

theorem isSeparator_of_isPassive (ht : t.IsPassive) : isSeparator t = false := by
  rw [isSeparator, ht.other "." (by decide), ht.other ":" (by decide)]
  rfl

/-- What a passive token does depends on the stage only. -/
theorem stepDraft_of_isPassive (ht : t.IsPassive) (d : Declaration.Draft) :
    stepDraft d t =
      match d.stage with
      | .name => .failed
      | .afterName =>
        if d.isLocal && !isOpenName d.name then .finished d .variable else .failed
      | .afterAssign => .finished d .variable
      | .functionKeyword => .failed
      | .params => .reading d := by
  have hopen := ht.other "(" (by decide)
  have hseparator := isSeparator_of_isPassive ht
  cases hstage : d.stage with
  | name =>
    simp only [stepDraft, hstage, stepName, ht.word, hseparator, hopen, Bool.or_false,
      Bool.false_and, Bool.false_eq_true, if_false]
  | afterName =>
    have hassign := ht.other "=" (by decide)
    have hcomma := ht.other "," (by decide)
    simp only [stepDraft, hstage, stepAfterName, ht.word, hseparator, hassign, hcomma,
      Bool.false_and, Bool.false_eq_true, if_false]
  | afterAssign =>
    have hbrace := ht.other "\x7b" (by decide)
    simp only [stepDraft, hstage, stepAfterAssign, ht.isWord, hbrace, Bool.false_eq_true, if_false]
  | functionKeyword =>
    simp only [stepDraft, hstage, stepFunctionKeyword, hopen, Bool.false_eq_true, if_false]
  | params =>
    have hclose := ht.other ")" (by decide)
    have hrest := ht.other "..." (by decide)
    simp only [stepDraft, hstage, stepParams, ht.word, hclose, hrest, Bool.or_false,
      Bool.false_eq_true, if_false]

/-- No step looks into a passive token. -/
theorem step_eq (h : Token.Alike .lua t u) (ht : t.isCode = true)
    (state : Declaration.Progress) : step state u = step state t := by
  rcases h.eq_or_isPassive ht with rfl | ⟨ht, hu⟩
  · rfl
  · cases state with
    | awaiting isLocal =>
      simp only [step, stepAwaiting, ht.word, hu.word, ht.isWord, hu.isWord, Bool.false_and,
        Bool.false_eq_true, if_false]
    | reading d => rw [step, step, stepDraft_of_isPassive ht, stepDraft_of_isPassive hu]
    | done declaration => rfl

theorem isSeparator_eq (h : Token.Alike .lua t u) (ht : t.isCode = true) :
    isSeparator u = isSeparator t := by
  rw [isSeparator, isSeparator, h.isOther_eq ht (by decide), h.isOther_eq ht (by decide)]

/-- An argument names the same module. Literals that differ in line ends have no content and leave
    the name to the path. -/
theorem calledModule?_eq (h : Token.Alike .lua t u) (ht : t.isCode = true) :
    calledModule? u = calledModule? t := by
  have hrest := h.isOther_eq ht (by decide : "...".toList.head? ≠ some '#')
  unfold calledModule?
  rw [h.kind_eq, hrest]
  split
  · rename_i hkind
    cases h with
    | same => rfl
    | literal hnewlines hcontent => rw [hcontent]
    | line => cases hkind
    | comment => cases ht
    | space => cases ht
  · rfl

/-- The search for a call takes the same steps on tokens that are alike. -/
theorem findModuleCall_eq {ts us : List Token}
    (h : List.Forall₂ (fun t u => t.isCode = true ∧ Token.Alike .lua t u) ts us)
    (afterSeparator : Bool) :
    findModuleCall afterSeparator us = findModuleCall afterSeparator ts := by
  have hopening : "(".toList.head? ≠ some '#' := by decide
  fun_induction findModuleCall afterSeparator ts generalizing us with
  | case1 =>
    cases h
    rfl
  | case2 afterSeparator t hmodule =>
    obtain ⟨u, _, ⟨ht, hu⟩, hrest, rfl⟩ := List.forall₂_cons_left_iff.mp h
    cases hrest
    rw [findModuleCall, hu.isWord_eq ht, if_pos hmodule]
  | case3 afterSeparator t hmodule next hopen =>
    obtain ⟨u, _, ⟨ht, hu⟩, hnexts, rfl⟩ := List.forall₂_cons_left_iff.mp h
    obtain ⟨v, _, ⟨hnext, hv⟩, hrest, rfl⟩ := List.forall₂_cons_left_iff.mp hnexts
    cases hrest
    rw [findModuleCall.eq_def]
    simp only [hu.isWord_eq ht, hmodule, if_true, hv.isOther_eq hnext hopening, hopen]
  | case4 afterSeparator t hmodule next hopen argument rest =>
    rename_i ih
    obtain ⟨u, _, ⟨ht, hu⟩, hnexts, rfl⟩ := List.forall₂_cons_left_iff.mp h
    obtain ⟨v, _, ⟨hnext, hv⟩, harguments, rfl⟩ := List.forall₂_cons_left_iff.mp hnexts
    obtain ⟨w, _, ⟨hargument, hw⟩, hrest, rfl⟩ := List.forall₂_cons_left_iff.mp harguments
    rw [findModuleCall.eq_def]
    simp only [hu.isWord_eq ht, hmodule, if_true, hv.isOther_eq hnext hopening, hopen,
      calledModule?_eq hw hargument, isSeparator_eq hw hargument, ih hrest]
  | case5 afterSeparator t hmodule next rest hopen =>
    rename_i ih
    obtain ⟨u, _, ⟨ht, hu⟩, hnexts, rfl⟩ := List.forall₂_cons_left_iff.mp h
    obtain ⟨v, _, ⟨hnext, hv⟩, hrest, rfl⟩ := List.forall₂_cons_left_iff.mp hnexts
    rw [findModuleCall.eq_def]
    simp only [hu.isWord_eq ht, hmodule, if_true, hv.isOther_eq hnext hopening, hopen,
      Bool.false_eq_true, if_false, calledModule?_eq hv hnext, isSeparator_eq hv hnext, ih hrest]
  | case6 afterSeparator t rest hmodule =>
    rename_i ih
    obtain ⟨u, _, ⟨ht, hu⟩, hrest, rfl⟩ := List.forall₂_cons_left_iff.mp h
    rw [findModuleCall.eq_def]
    simp only [hu.isWord_eq ht, hmodule, Bool.false_eq_true, if_false, isSeparator_eq hu ht,
      ih hrest]

/-- The same call is found, since both sources have the same tokens of code. -/
theorem moduleCall?_eq {ts us : List Token} (h : List.Forall₂ (Token.Alike .lua) ts us) :
    moduleCall? us = moduleCall? ts := by
  have hcode : List.Forall₂ (fun t u => t.isCode = true ∧ Token.Alike .lua t u)
      (ts.filter Token.isCode) (us.filter Token.isCode) := by
    induction h with
    | nil => exact .nil
    | @cons t u ts us ht _ ih =>
      rw [List.filter_cons, List.filter_cons, ht.isCode_eq]
      split
      · rename_i hkept
        exact .cons ⟨hkept, ht⟩ ih
      · exact ih
  exact findModuleCall_eq hcode false

end Lua

/-- In both languages a step does not see line ends. -/
theorem Language.step_eq (lang : Language) {t u : Token} (h : Token.Alike lang t u)
    (ht : t.isCode = true) (state : Declaration.Progress) :
    lang.step state u = lang.step state t := by
  cases lang with
  | lua => exact Lua.step_eq h ht state
  | c => exact C.step_eq h ht state

theorem Language.moduleCall?_eq (lang : Language) {ts us : List Token}
    (h : List.Forall₂ (Token.Alike lang) ts us) : lang.moduleCall? us = lang.moduleCall? ts := by
  cases lang with
  | lua => exact Lua.moduleCall?_eq h
  | c => rfl

end SourceDoc
