import Mathlib.Data.List.Induction
import Mathlib.Data.List.Nodup
import SourceDoc.Keyed

namespace SourceDoc

namespace Keyed

variable {α κ : Type} [DecidableEq κ] (key : α → κ)

/-- Adds entries at the end, except those whose key is there already. -/
def addNew (entries more : List α) : List α :=
  more.foldl (fun acc e => if acc.any (key · = key e) then acc else acc ++ [e]) entries

theorem addNew_append (entries more others : List α) :
    addNew key entries (more ++ others) = addNew key (addNew key entries more) others :=
  List.foldl_append

/-- One more entry at the end. Facts about more of them follow by induction from the last one. -/
theorem addNew_concat (entries more : List α) (e : α) :
    addNew key entries (more ++ [e]) =
      if key e ∈ (addNew key entries more).map key then addNew key entries more
      else addNew key entries more ++ [e] := by
  rw [addNew_append, addNew, List.foldl_cons, List.foldl_nil]
  simp [List.mem_map]

/-- The keys are added as the entries are. -/
theorem map_key_addNew (entries more : List α) :
    (addNew key entries more).map key = addNew id (entries.map key) (more.map key) := by
  induction more using List.reverseRecOn with
  | nil => rfl
  | append_singleton more e ih =>
    rw [addNew_concat, List.map_append, List.map_singleton, addNew_concat, List.map_id, ← ih, id_eq]
    split
    · rfl
    · rw [List.map_append, List.map_singleton]

/-- No key is lost or made up, whichever entries are left out. -/
theorem mem_keys_addNew {entries more : List α} {k : κ} :
    k ∈ (addNew key entries more).map key ↔ k ∈ entries.map key ∨ k ∈ more.map key := by
  induction more using List.reverseRecOn with
  | nil => simp [addNew]
  | append_singleton more e ih =>
    have hmore : k ∈ (more ++ [e]).map key ↔ k ∈ more.map key ∨ k = key e := by simp
    rw [addNew_concat, hmore, ← or_assoc, ← ih]
    split
    · rename_i hold
      constructor
      · exact .inl
      · rintro (h | rfl)
        · exact h
        · exact hold
    · simp

/-- Entries that were put together without repeating a key are added like the entries they were put
    together from. -/
theorem addNew_addNew (entries more others : List α) :
    addNew key entries (addNew key more others) =
      addNew key (addNew key entries more) others := by
  induction others using List.reverseRecOn with
  | nil => rfl
  | append_singleton others e ih =>
    rw [addNew_concat, addNew_concat, ← ih]
    split
    · rename_i hold
      have hkept : key e ∈ (addNew key entries (addNew key more others)).map key :=
        (mem_keys_addNew key).mpr (.inr hold)
      rw [if_pos hkept]
    · rw [addNew_concat]

theorem addNew_nil_of_nodup {entries : List α} (h : (entries.map key).Nodup) :
    addNew key [] entries = entries := by
  induction entries using List.reverseRecOn with
  | nil => rfl
  | append_singleton entries e ih =>
    rw [List.map_append, List.map_singleton, ← List.concat_eq_append, List.nodup_concat] at h
    obtain ⟨hnew, hnodup⟩ := h
    rw [addNew_concat, ih hnodup, if_neg hnew]

/-- Added to no entries, the entries of each key are reduced to the first one. -/
theorem addNew_nil_eq_eraseDupsBy {same : α → α → Bool}
    (hsame : ∀ d e, same d e = true ↔ key d = key e) (entries : List α) :
    addNew key [] entries = entries.eraseDupsBy same := by
  -- the library's loop keeps what it has found in reverse order
  have hloop (found : List α) : addNew key found.reverse entries =
      List.eraseDupsBy.loop same entries found := by
    induction entries generalizing found with
    | nil => rfl
    | cons e entries ih =>
      have hany : found.reverse.any (key · = key e) = found.any (same e) := by
        rw [List.any_reverse, Bool.eq_iff_iff, List.any_eq_true, List.any_eq_true]
        simp only [decide_eq_true_eq, hsame, eq_comm (a := key e)]
      rw [addNew, List.foldl_cons, hany, List.eraseDupsBy.loop, ← addNew]
      cases found.any (same e) with
      | true => exact ih found
      | false =>
        rw [if_neg Bool.false_ne_true, ← List.reverse_cons]
        exact ih (e :: found)
  exact hloop []

/-- Of entries that are their own keys, the library's `eraseDups` keeps the same ones. -/
theorem addNew_id_nil [BEq κ] [LawfulBEq κ] (ks : List κ) : addNew id [] ks = ks.eraseDups :=
  addNew_nil_eq_eraseDupsBy id (fun _ _ => beq_iff_eq) ks

/-- One more entry at the end is new or repeats one before it. -/
theorem eraseDups_concat [BEq κ] [LawfulBEq κ] (ks : List κ) (k : κ) :
    (ks ++ [k]).eraseDups = if k ∈ ks then ks.eraseDups else ks.eraseDups ++ [k] := by
  rw [← addNew_id_nil, addNew_concat, List.map_id, addNew_id_nil, id]
  simp only [List.mem_eraseDups]

/-- No key gets a second entry. -/
theorem nodup_map_key_upsert {change : α → α} {new : α} {entries : List α} {key : α → κ}
    (hchange : ∀ e, key e = key new → key (change e) = key new) (h : (entries.map key).Nodup) :
    ((upsert key change new entries).map key).Nodup := by
  rw [map_key_upsert hchange]
  split
  · exact h
  · rename_i hnew
    rw [← List.concat_eq_append]
    exact h.concat hnew

end Keyed

namespace Dictionary

variable {κ ν : Type} [DecidableEq κ]

/-- Puts entries one after the other. -/
def putAll (entries : List (κ × ν)) (d : List (κ × ν)) : List (κ × ν) :=
  entries.foldl (fun d entry => put entry.1 entry.2 d) d

theorem putAll_cons (entry : κ × ν) (entries d : List (κ × ν)) :
    putAll (entry :: entries) d = putAll entries (put entry.1 entry.2 d) :=
  rfl

theorem putAll_append (entries more d : List (κ × ν)) :
    putAll (entries ++ more) d = putAll more (putAll entries d) :=
  List.foldl_append

theorem putAll_concat (entries : List (κ × ν)) (entry : κ × ν) (d : List (κ × ν)) :
    putAll (entries ++ [entry]) d = put entry.1 entry.2 (putAll entries d) :=
  putAll_append entries [entry] d

/-- Putting entries forgets no key and adds no other keys than theirs. -/
theorem mem_keys_putAll {k : κ} {entries d : List (κ × ν)} :
    k ∈ (putAll entries d).map (·.1) ↔ k ∈ entries.map (·.1) ∨ k ∈ d.map (·.1) := by
  induction entries using List.reverseRecOn with
  | nil => simp [putAll]
  | append_singleton entries entry ih =>
    rw [putAll_concat, mem_keys_put, ih, List.map_append, List.mem_append, List.map_singleton,
      List.mem_singleton, or_left_comm, or_assoc]

/-- A value that is put at the end need not be put before entries whose keys are all known. -/
theorem put_putAll_put (key : κ) (value : ν) (entries : List (κ × ν)) {d : List (κ × ν)}
    (hknown : ∀ entry ∈ entries, entry.1 ∈ d.map (·.1)) :
    put key value (putAll entries (put key value d)) = put key value (putAll entries d) := by
  induction entries generalizing d with
  | nil => exact put_put key value value d
  | cons entry entries ih =>
    obtain ⟨k, v⟩ := entry
    have hk : k ∈ d.map (·.1) := hknown (k, v) List.mem_cons_self
    by_cases hkey : k = key
    · subst hkey
      rw [putAll_cons, put_put, putAll_cons]
    · have hrest : ∀ entry ∈ entries, entry.1 ∈ (put k v d).map (·.1) := fun entry hentry =>
        mem_keys_put.mpr (.inr (hknown entry (List.mem_cons_of_mem _ hentry)))
      rw [putAll_cons, put_comm hkey v value hk, putAll_cons]
      exact ih hrest

/-- Entries that are put twice are there as if they had been put once. -/
theorem putAll_putAll (entries d : List (κ × ν)) :
    putAll entries (putAll entries d) = putAll entries d := by
  induction entries using List.reverseRecOn with
  | nil => rfl
  | append_singleton entries entry ih =>
    have hknown : ∀ known ∈ entries, known.1 ∈ (putAll entries d).map (·.1) := fun known hmem =>
      mem_keys_putAll.mpr (.inl (List.mem_map_of_mem hmem))
    rw [putAll_concat, putAll_concat]
    calc put entry.1 entry.2 (putAll entries (put entry.1 entry.2 (putAll entries d)))
        = put entry.1 entry.2 (putAll entries (putAll entries d)) :=
          put_putAll_put entry.1 entry.2 entries hknown
      _ = put entry.1 entry.2 (putAll entries d) := by rw [ih]

end Dictionary

end SourceDoc
