import SourceDoc.Link
import SourceDoc.Proofs.Text.Words

namespace SourceDoc.Link

/-- The first closing square bracket of a text is at a position, and a parenthesis opens right
    behind it. -/
structure ClosesAt (t : Text) (j : Nat) : Prop where
  closing : t[j]? = some ']'
  first : ∀ k < j, t[k]? ≠ some ']'
  target : t[j + 1]? = some '('

/-- The label of an inline link is between the square brackets at two positions. -/
structure LinkAt (t : Text) (i j : Nat) : Prop where
  order : i < j
  opening : t[i]? = some '['
  closing : t[j]? = some ']'
  label : ∀ k, i < k → k < j → t[k]? ≠ some ']'
  target : t[j + 1]? = some '('

variable {c : Char} {cs t : Text} {i j : Nat}

theorem closesAt_zero : ClosesAt (c :: cs) 0 ↔ c = ']' ∧ cs.head? = some '(' := by
  constructor
  · intro h
    exact ⟨by simpa using h.closing, by simpa [List.head?_eq_getElem?] using h.target⟩
  · rintro ⟨rfl, htarget⟩
    exact ⟨rfl, fun k hk => absurd hk (Nat.not_lt_zero k),
      by simpa [List.head?_eq_getElem?] using htarget⟩

/-- A closing bracket before a position takes that place. -/
theorem closesAt_succ : ClosesAt (c :: cs) (j + 1) ↔ c ≠ ']' ∧ ClosesAt cs j := by
  constructor
  · intro h
    have hc : c ≠ ']' := by simpa using h.first 0 (Nat.zero_lt_succ j)
    exact ⟨hc, h.closing, fun k hk => h.first (k + 1) (Nat.succ_lt_succ hk), h.target⟩
  · rintro ⟨hc, h⟩
    refine ⟨h.closing, fun k hk => ?_, h.target⟩
    cases k with
    | zero => simpa using hc
    | succ k => exact h.first k (Nat.lt_of_succ_lt_succ hk)

theorem linkAt_zero : LinkAt (c :: cs) 0 (j + 1) ↔ c = '[' ∧ ClosesAt cs j := by
  constructor
  · intro h
    refine ⟨by simpa using h.opening, h.closing, fun k hk => ?_, h.target⟩
    exact h.label (k + 1) (Nat.zero_lt_succ k) (Nat.succ_lt_succ hk)
  · rintro ⟨rfl, h⟩
    refine ⟨Nat.zero_lt_succ j, rfl, h.closing, fun k hpos hk => ?_, h.target⟩
    cases k with
    | zero => exact absurd hpos (Nat.lt_irrefl 0)
    | succ k => exact h.first k (Nat.lt_of_succ_lt_succ hk)

/-- What stands before an opening bracket does not matter to the link. -/
theorem linkAt_succ : LinkAt (c :: cs) (i + 1) (j + 1) ↔ LinkAt cs i j := by
  constructor
  · intro h
    refine ⟨Nat.lt_of_succ_lt_succ h.order, h.opening, h.closing, fun k hi hj => ?_, h.target⟩
    exact h.label (k + 1) (Nat.succ_lt_succ hi) (Nat.succ_lt_succ hj)
  · intro h
    refine ⟨Nat.succ_lt_succ h.order, h.opening, h.closing, fun k hi hj => ?_, h.target⟩
    cases k with
    | zero => exact absurd hi (Nat.not_lt_zero _)
    | succ k => exact h.label k (Nat.lt_of_succ_lt_succ hi) (Nat.lt_of_succ_lt_succ hj)

/-- The first closing bracket decides, not a later one. -/
theorem exists_closesAt_iff :
    (∃ j, ClosesAt t j) ↔ ∃ label rest, Text.cutBefore? (· == ']') t = some (label, rest) ∧
      ("](" : Text).isPrefixOf rest = true := by
  induction t with
  | nil =>
    refine iff_of_false ?_ (by simp [Text.cutBefore?])
    rintro ⟨j, h⟩
    cases h.closing
  | cons c cs ih =>
    rw [Text.cutBefore?_cons]
    by_cases hc : c = ']'
    · subst hc
      have htarget : ("](" : Text).isPrefixOf (']' :: cs) = true ↔ cs.head? = some '(' := by
        cases cs with
        | nil => simp
        | cons d ds => simp [eq_comm (a := '(')]
      simp only [beq_self_eq_true, if_true, Option.some.injEq, Prod.mk.injEq]
      constructor
      · rintro ⟨j, h⟩
        cases j with
        | zero => exact ⟨[], _, ⟨rfl, rfl⟩, htarget.mpr (closesAt_zero.mp h).2⟩
        | succ j => exact absurd rfl (closesAt_succ.mp h).1
      · rintro ⟨label, rest, ⟨-, rfl⟩, h⟩
        exact ⟨0, closesAt_zero.mpr ⟨rfl, htarget.mp h⟩⟩
    · have hcut : (c == ']') = false := beq_false_of_ne hc
      simp only [hcut, Bool.false_eq_true, if_false, Option.map_eq_some_iff]
      constructor
      · rintro ⟨j, h⟩
        cases j with
        | zero => exact absurd (closesAt_zero.mp h).1 hc
        | succ j =>
          obtain ⟨label, rest, hrest, htarget⟩ := ih.mp ⟨j, (closesAt_succ.mp h).2⟩
          exact ⟨c :: label, rest, ⟨_, hrest, rfl⟩, htarget⟩
      · rintro ⟨_, _, ⟨⟨label, rest⟩, hrest, ⟨⟩⟩, htarget⟩
        obtain ⟨j, h⟩ := ih.mpr ⟨label, rest, hrest, htarget⟩
        exact ⟨j + 1, closesAt_succ.mpr ⟨hc, h⟩⟩

/-- A link begins with the first character or it is one of the text behind it. -/
theorem exists_linkAt_cons :
    (∃ i j, LinkAt (c :: cs) i j) ↔ (c = '[' ∧ ∃ j, ClosesAt cs j) ∨ ∃ i j, LinkAt cs i j := by
  constructor
  · rintro ⟨i, j, h⟩
    obtain ⟨j, rfl⟩ := Nat.exists_eq_add_one.mpr (Nat.zero_lt_of_lt h.order)
    cases i with
    | zero =>
      obtain ⟨hc, hcloses⟩ := linkAt_zero.mp h
      exact .inl ⟨hc, j, hcloses⟩
    | succ i => exact .inr ⟨i, j, linkAt_succ.mp h⟩
  · rintro (⟨hc, j, h⟩ | ⟨i, j, h⟩)
    · exact ⟨0, j + 1, linkAt_zero.mpr ⟨hc, h⟩⟩
    · exact ⟨i + 1, j + 1, linkAt_succ.mpr h⟩

/-- A text has an inline link exactly if two square brackets stand in it with no closing one between
    them and a parenthesis right behind them. The search may end at an opening bracket that no
    closing one follows, since then no bracket behind it is closed either. -/
theorem hasInlineLink_iff (t : Text) : hasInlineLink t = true ↔ ∃ i j, LinkAt t i j := by
  induction t with
  | nil =>
    refine iff_of_false (by decide) ?_
    rintro ⟨i, j, h⟩
    cases h.opening
  | cons c cs ih =>
    rw [exists_linkAt_cons, exists_closesAt_iff, hasInlineLink]
    split
    · rename_i hc
      split
      · rename_i hunclosed
        have hclosing : ']' ∉ cs := by
          intro hmem
          simpa using Text.cutBefore?_eq_none_iff.mp hunclosed ']' hmem
        rw [hunclosed]
        refine iff_of_false Bool.false_ne_true ?_
        rintro (⟨-, label, rest, hcut, -⟩ | ⟨i, j, h⟩)
        · cases hcut
        · exact hclosing (List.mem_of_getElem? h.closing)
      · rename_i label rest hcut
        simp [hcut, hc, ih]
    · rename_i hc
      simp [hc, ih]

/-- An opening bracket in a label begins a link of its own; a closing one ends the label before
    it. -/
example : hasInlineLink "[a[b](c" = true ∧ hasInlineLink "[a]b](c)" = false := by
  decide

end SourceDoc.Link
