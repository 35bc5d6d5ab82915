import Mathlib.Init

namespace SourceDoc

variable {ε ε' α β : Type}

/-- Two steps in sequence succeed exactly if both do, the second one on what the first one
    delivers. -/
theorem bind_eq_ok_iff {x : Except ε α} {f : α → Except ε β} {b : β} :
    (x >>= f) = .ok b ↔ ∃ a, x = .ok a ∧ f a = .ok b := by
  cases x with
  | error e => simp [bind, Except.bind]
  | ok a => simp [bind, Except.bind]

/-- Two steps in sequence fail where the first one of them fails that does. -/
theorem bind_eq_error_iff {x : Except ε α} {f : α → Except ε β} {e : ε} :
    (x >>= f) = .error e ↔ x = .error e ∨ ∃ a, x = .ok a ∧ f a = .error e := by
  cases x with
  | error e' => simp [bind, Except.bind]
  | ok a => simp [bind, Except.bind]

theorem mapError_eq_ok_iff {f : ε → ε'} {x : Except ε α} {a : α} :
    x.mapError f = .ok a ↔ x = .ok a := by
  cases x with
  | error e => constructor <;> rintro ⟨⟩
  | ok b => constructor <;> (rintro ⟨⟩; rfl)

/-- A step that succeeds under a condition, and then with one result, succeeds on a list if all of
    its members meet the condition. -/
theorem mapM_eq_ok_iff {f : α → Except ε β} {ok : α → Prop} {result : α → β}
    (hf : ∀ a b, f a = .ok b ↔ ok a ∧ b = result a) {as : List α} {bs : List β} :
    as.mapM f = .ok bs ↔ (∀ a ∈ as, ok a) ∧ bs = as.map result := by
  induction as generalizing bs with
  | nil =>
    rw [List.mapM_nil]
    constructor
    · intro h
      cases h
      exact ⟨fun a ha => absurd ha List.not_mem_nil, rfl⟩
    · rintro ⟨-, rfl⟩
      rfl
  | cons a as ih =>
    rw [List.mapM_cons, bind_eq_ok_iff]
    constructor
    · rintro ⟨first, hfirst, h⟩
      obtain ⟨rest, hrest, h⟩ := bind_eq_ok_iff.mp h
      cases h
      obtain ⟨ha, rfl⟩ := (hf a first).mp hfirst
      obtain ⟨has, rfl⟩ := ih.mp hrest
      exact ⟨List.forall_mem_cons.mpr ⟨ha, has⟩, rfl⟩
    · rintro ⟨hall, rfl⟩
      obtain ⟨ha, has⟩ := List.forall_mem_cons.mp hall
      refine ⟨result a, (hf a _).mpr ⟨ha, rfl⟩, ?_⟩
      exact bind_eq_ok_iff.mpr ⟨_, ih.mpr ⟨has, rfl⟩, rfl⟩

/-- A list fails over one of its members. -/
theorem exists_of_mapM_eq_error {f : α → Except ε β} {as : List α} {e : ε}
    (h : as.mapM f = .error e) : ∃ a ∈ as, f a = .error e := by
  induction as with
  | nil => cases h
  | cons a as ih =>
    rw [List.mapM_cons, bind_eq_error_iff] at h
    rcases h with hfirst | ⟨first, -, h⟩
    · exact ⟨a, List.mem_cons_self, hfirst⟩
    · rcases bind_eq_error_iff.mp h with hrest | ⟨rest, -, hreturn⟩
      · obtain ⟨found, hfound, herror⟩ := ih hrest
        exact ⟨found, List.mem_cons_of_mem _ hfound, herror⟩
      · cases hreturn

end SourceDoc
