namespace SourceDoc

namespace Keyed

variable {α β κ : Type} [DecidableEq κ]

/-- Changes the first entry that has the key of a new one, or adds the new one at the end if none
    has it. Where changes keep the key, no key ever gets a second entry. -/
def upsert (key : α → κ) (change : α → α) (new : α) : List α → List α
  | [] => [new]
  | e :: es => if key e = key new then change e :: es else e :: upsert key change new es

variable {key : α → κ} {change : α → α} {new : α} {es : List α}

/-- What is in the list afterwards was put in, was there before or is a changed entry of the key. -/
theorem mem_of_mem_upsert {e : α} (h : e ∈ upsert key change new es) :
    e = new ∨ e ∈ es ∨ ∃ old ∈ es, key old = key new ∧ e = change old := by
  induction es with
  | nil => exact .inl (List.mem_singleton.mp h)
  | cons first es ih =>
    rw [upsert] at h
    split at h
    · rename_i hfirst
      rcases List.mem_cons.mp h with rfl | h
      · exact .inr (.inr ⟨first, List.mem_cons_self, hfirst, rfl⟩)
      · exact .inr (.inl (List.mem_cons_of_mem _ h))
    · rcases List.mem_cons.mp h with rfl | h
      · exact .inr (.inl List.mem_cons_self)
      · rcases ih h with hnew | hold | ⟨old, hold, hchanged⟩
        · exact .inl hnew
        · exact .inr (.inl (List.mem_cons_of_mem _ hold))
        · exact .inr (.inr ⟨old, List.mem_cons_of_mem _ hold, hchanged⟩)

/-- The keys stay as they are, in their order; a new one comes last. -/
theorem map_key_upsert [BEq κ] [LawfulBEq κ]
    (hchange : ∀ e, key e = key new → key (change e) = key new) (es : List α) :
    (upsert key change new es).map key =
      if key new ∈ es.map key then es.map key else es.map key ++ [key new] := by
  induction es with
  | nil => simp [upsert]
  | cons e es ih =>
    rw [upsert]
    by_cases hkey : key e = key new
    · simp [hkey, hchange e hkey]
    · have hne : ¬ key new = key e := fun h => hkey h.symm
      simp only [if_neg hkey, List.map_cons, ih, List.mem_cons, hne, false_or]
      split <;> simp

/-- A map that keeps the keys, and before and after which entries change alike, can be applied
    before an entry is put in or after it. -/
theorem map_upsert {key' : β → κ} {change' : β → β} {f : α → β} (hkey : ∀ e, key' (f e) = key e)
    (hchange : ∀ e, key e = key new → f (change e) = change' (f e)) (es : List α) :
    (upsert key change new es).map f = upsert key' change' (f new) (es.map f) := by
  induction es with
  | nil => rfl
  | cons e es ih =>
    rw [List.map_cons, upsert, upsert, hkey, hkey]
    split
    · rename_i hsame
      rw [List.map_cons, hchange e hsame]
    · rw [List.map_cons, ih]

/-- The entries of the key, after one has been put in. -/
theorem filter_key_upsert (hchange : ∀ e, key e = key new → key (change e) = key new)
    (es : List α) :
    (upsert key change new es).filter (key · = key new) =
      upsert key change new (es.filter (key · = key new)) := by
  induction es with
  | nil => simp [upsert]
  | cons e es ih =>
    by_cases hkey : key e = key new
    · simp [upsert, hkey, hchange e hkey]
    · simp [upsert, hkey, ih]

/-- Entries of other keys are not touched. -/
theorem filter_upsert_of_not {p : α → Bool} (hp : ∀ e, key e = key new → p e = false)
    (hchange : ∀ e, key e = key new → key (change e) = key new) (es : List α) :
    (upsert key change new es).filter p = es.filter p := by
  induction es with
  | nil => simp [upsert, hp new rfl]
  | cons e es ih =>
    rw [upsert]
    split
    · rename_i hkey
      have hchanged : p (change e) = false := hp _ (hchange e hkey)
      rw [List.filter_cons_of_neg (by simp [hchanged]),
        List.filter_cons_of_neg (by simp [hp e hkey])]
    · rw [List.filter_cons, List.filter_cons, ih]

theorem upsert_ne_nil (es : List α) : upsert key change new es ≠ [] := by
  cases es with
  | nil => exact List.cons_ne_nil new []
  | cons e es =>
    rw [upsert]
    split <;> exact List.cons_ne_nil _ _

end Keyed

namespace Dictionary

variable {κ ν : Type} [DecidableEq κ]

/-- Changes the value of a key in its first entry, or adds an entry at the end if the key has
    none. -/
def update (key : κ) (change : ν → ν) (new : ν) (entries : List (κ × ν)) : List (κ × ν) :=
  Keyed.upsert Prod.fst (fun entry => (entry.1, change entry.2)) (key, new) entries

/-- Gives a key a value: in place if the key has an entry, else in a new entry at the end. -/
def put (key : κ) (value : ν) (entries : List (κ × ν)) : List (κ × ν) :=
  update key (fun _ => value) value entries

theorem update_cons (key k : κ) (change : ν → ν) (new v : ν) (entries : List (κ × ν)) :
    update key change new ((k, v) :: entries) =
      if k = key then (k, change v) :: entries else (k, v) :: update key change new entries :=
  rfl

theorem put_nil (key : κ) (value : ν) : put key value [] = [(key, value)] :=
  rfl

theorem put_cons (key k : κ) (value v : ν) (entries : List (κ × ν)) :
    put key value ((k, v) :: entries) =
      if k = key then (k, value) :: entries else (k, v) :: put key value entries :=
  rfl

section Lookup

variable [BEq κ] [LawfulBEq κ]

/-- The library's law of lookup as a condition on equality instead of on a Boolean test. -/
theorem lookup_cons_eq_ite (key k : κ) (value : ν) (entries : List (κ × ν)) :
    ((k, value) :: entries).lookup key = if key = k then some value else entries.lookup key := by
  rw [List.lookup_cons]
  by_cases hkey : key = k
  · simp [hkey]
  · simp [hkey, beq_false_of_ne hkey]

/-- An update is seen under its own key only. -/
theorem lookup_update (key : κ) (change : ν → ν) (new : ν) (entries : List (κ × ν)) (k : κ) :
    (update key change new entries).lookup k =
      if k = key then some ((entries.lookup key).elim new change) else entries.lookup k := by
  induction entries with
  | nil => exact lookup_cons_eq_ite k key new []
  | cons entry entries ih =>
    obtain ⟨first, value⟩ := entry
    rw [update_cons]
    by_cases hfirst : first = key
    · subst hfirst
      rw [if_pos rfl, lookup_cons_eq_ite, lookup_cons_eq_ite, lookup_cons_eq_ite, if_pos rfl]
      split <;> rfl
    · rw [if_neg hfirst, lookup_cons_eq_ite, lookup_cons_eq_ite, lookup_cons_eq_ite, ih,
        if_neg (Ne.symm hfirst)]
      by_cases hk : k = first
      · rw [if_pos hk, if_pos hk, if_neg (hk ▸ hfirst)]
      · rw [if_neg hk, if_neg hk]

/-- A dictionary holds what was put last under a key. -/
theorem lookup_put (key : κ) (value : ν) (entries : List (κ × ν)) (k : κ) :
    (put key value entries).lookup k = if k = key then some value else entries.lookup k := by
  rw [put, lookup_update]
  cases entries.lookup key <;> rfl

/-- The keys stay in the order in which they were first given a value. -/
theorem keys_update (key : κ) (change : ν → ν) (new : ν) (entries : List (κ × ν)) :
    (update key change new entries).map (·.1) =
      if key ∈ entries.map (·.1) then entries.map (·.1) else entries.map (·.1) ++ [key] :=
  Keyed.map_key_upsert (by exact fun _ h => h) entries

end Lookup

/-- A key that was given a value is known, and no key is forgotten. -/
theorem mem_keys_put {key k : κ} {value : ν} {entries : List (κ × ν)} :
    k ∈ (put key value entries).map (·.1) ↔ k = key ∨ k ∈ entries.map (·.1) := by
  rw [put, keys_update]
  split
  · rename_i hkey
    constructor
    · exact .inr
    · rintro (rfl | hk)
      · exact hkey
      · exact hk
  · rw [List.mem_append, List.mem_singleton, or_comm]

/-- The second of two values of a key wins. -/
theorem put_put (key : κ) (value later : ν) (entries : List (κ × ν)) :
    put key later (put key value entries) = put key later entries := by
  induction entries with
  | nil => simp [put_nil, put_cons]
  | cons entry entries ih =>
    obtain ⟨k, v⟩ := entry
    by_cases hkey : k = key
    · simp [put_cons, hkey]
    · simp [put_cons, hkey, ih]

/-- Values of different keys may be put in either order if one of the keys has an entry already;
    else the order of the new entries would differ. -/
theorem put_comm {key other : κ} (hne : key ≠ other) (value more : ν) {entries : List (κ × ν)}
    (hkey : key ∈ entries.map (·.1)) :
    put key value (put other more entries) = put other more (put key value entries) := by
  induction entries with
  | nil => cases hkey
  | cons entry entries ih =>
    obtain ⟨k, v⟩ := entry
    by_cases hk : k = key
    · subst hk
      simp [put_cons, hne]
    · have hrest : key ∈ entries.map (·.1) := by
        rcases List.mem_cons.mp hkey with h | h
        · exact absurd h.symm hk
        · exact h
      by_cases hother : k = other
      · subst hother
        simp [put_cons, hk]
      · simp [put_cons, hk, hother, ih hrest]

end Dictionary

end SourceDoc
