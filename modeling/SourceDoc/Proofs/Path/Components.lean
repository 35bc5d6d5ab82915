import SourceDoc.Path
import SourceDoc.Proofs.Text.Lines

namespace SourceDoc.Path

theorem Component.ofPiece?_ne_current (piece : Text) : ofPiece? piece ≠ some .current := by
  unfold ofPiece?
  split
  · simp
  · split <;> simp

/-- Only the first piece of a path can stand for the current directory. -/
theorem current_not_mem_filterMap_ofPiece? (pieces : List Text) :
    .current ∉ pieces.filterMap Component.ofPiece? := by
  rw [List.mem_filterMap]
  rintro ⟨piece, -, hpiece⟩
  exact Component.ofPiece?_ne_current piece hpiece

theorem filter_filterMap_ofPiece? (pieces : List Text) :
    (pieces.filterMap Component.ofPiece?).filter (· ≠ .current) =
      pieces.filterMap Component.ofPiece? := by
  rw [List.filter_eq_self]
  intro c hc
  have hne : c ≠ .current := by
    rintro rfl
    exact current_not_mem_filterMap_ofPiece? pieces hc
  simpa using hne

/-- Without the current directory a path loses nothing but a leading dot. -/
theorem components_eq_or (p : Path) :
    p.components = .current :: p.withoutCurrent ∨ p.components = p.withoutCurrent := by
  rw [withoutCurrent, components]
  split
  · exact .inr rfl
  · rename_i first rest _
    rw [List.filter_append, filter_filterMap_ofPiece?]
    cases Component.ofFirst? first rest.isEmpty with
    | none => exact .inr rfl
    | some c =>
      by_cases hc : c = .current
      · subst hc
        exact .inl rfl
      · right
        simp [hc]

theorem withoutCurrent_eq_of_leading {p q : Path} (h : p.components = .current :: q.components) :
    p.withoutCurrent = q.withoutCurrent := by
  rw [withoutCurrent, h]
  rfl

/-- Paths are alike without the current directory if they have the same components or one is the
    other with a leading dot. -/
theorem withoutCurrent_eq_iff (p q : Path) :
    p.withoutCurrent = q.withoutCurrent ↔ p.same q = true ∨
      p.components = .current :: q.components ∨ q.components = .current :: p.components := by
  rw [same, beq_iff_eq]
  constructor
  · intro h
    rcases components_eq_or p with hp | hp <;> rcases components_eq_or q with hq | hq
    · exact .inl (by rw [hp, hq, h])
    · exact .inr (.inl (by rw [hp, hq, h]))
    · exact .inr (.inr (by rw [hp, hq, h]))
    · exact .inl (by rw [hp, hq, h])
  · rintro (h | h | h)
    · rw [withoutCurrent, withoutCurrent, h]
    · exact withoutCurrent_eq_of_leading h
    · exact (withoutCurrent_eq_of_leading h).symm

/-- A piece between slashes that stands for a component: neither an empty one nor a dot. -/
def isNaming (piece : Text) : Bool :=
  piece ≠ "" ∧ piece ≠ "."

/-- The pieces of a path that stand for components. -/
def namingPieces (p : Path) : List Text :=
  (Text.split '/' p.text).filter isNaming

/-- Paths that only differ in dots and repeated slashes. A dot before the first slash makes a path
    relative, so that both or neither have to start with a slash. -/
structure SameButDots (p q : Path) : Prop where
  absolute : p.text.head? = some '/' ↔ q.text.head? = some '/'
  pieces : p.namingPieces = q.namingPieces

/-- Dots and repeated slashes stand for no components. -/
theorem filterMap_ofPiece?_filter (pieces : List Text) :
    (pieces.filter isNaming).filterMap Component.ofPiece? =
      pieces.filterMap Component.ofPiece? := by
  rw [List.filterMap_filter]
  refine List.filterMap_congr fun piece _ => ?_
  by_cases hnaming : isNaming piece = true
  · rw [if_pos hnaming]
  · have hnone : piece = "" ∨ piece = "." := by
      simpa [isNaming, or_iff_not_imp_left] using hnaming
    rw [if_neg hnaming, Component.ofPiece?, if_pos hnone]

/-- A first piece that is not empty is read like a later one, once a dot is left out. -/
theorem filter_ofFirst? {piece : Text} (hpiece : piece ≠ "") (isOnly : Bool) :
    (Component.ofFirst? piece isOnly).toList.filter (· ≠ .current) =
      (Component.ofPiece? piece).toList := by
  rw [Component.ofFirst?, if_neg hpiece]
  split
  · rename_i hdot
    rw [Component.ofPiece?, if_pos (.inr hdot)]
    rfl
  · exact filter_filterMap_ofPiece? [piece]

/-- Without the current directory a path is its root, if it starts there, and what its pieces stand
    for. -/
theorem withoutCurrent_eq (p : Path) : p.withoutCurrent =
    (if p.text.head? = some '/' then [.root] else []) ++
      p.namingPieces.filterMap Component.ofPiece? := by
  obtain ⟨t⟩ := p
  rw [withoutCurrent, components, namingPieces, filterMap_ofPiece?_filter]
  cases t with
  | nil => rfl
  | cons c cs =>
    obtain ⟨piece, pieces, hsplit⟩ := List.exists_cons_of_ne_nil (Text.split_ne_nil '/' cs)
    dsimp only
    rw [Text.split, hsplit]
    by_cases hslash : c = '/'
    · rw [if_pos hslash, hslash]
      dsimp only
      rw [List.filter_append, filter_filterMap_ofPiece?]
      rfl
    · rw [if_neg hslash]
      dsimp only
      rw [List.filter_append, filter_filterMap_ofPiece?, filter_ofFirst? (List.cons_ne_nil c piece),
        if_neg (by simpa using hslash), List.nil_append]
      cases hcomponent : Component.ofPiece? (c :: piece) <;> simp [hcomponent]

/-- Paths that only differ in dots and repeated slashes are alike without the current directory. -/
theorem SameButDots.withoutCurrent_eq {p q : Path} (h : p.SameButDots q) :
    p.withoutCurrent = q.withoutCurrent := by
  rw [Path.withoutCurrent_eq, Path.withoutCurrent_eq, h.pieces]
  simp only [h.absolute]

end SourceDoc.Path
