import Mathlib.Data.List.Nodup
import SourceDoc.Item.Basic
import SourceDoc.Proofs.Text.Words

namespace SourceDoc.Param

variable {word text : Text}

/-- What is read as a word and a text is what was written. -/
theorem splitWord_trim (hne : word ≠ []) (hword : ∀ c ∈ word, Text.isBlank c = false)
    (htext : Text.trim text = text) :
    splitWord (Text.trim (word ++ ' ' :: text)) = (word, text) := by
  have hall : ∀ c ∈ word, (!Text.isBlank c) = true := fun c hc => by rw [hword c hc]; rfl
  have hblank : Text.isBlank ' ' = true := by decide
  rw [Text.trim_word_text hne hword htext]
  cases text with
  | nil =>
    have htrimmed : Text.trim word = word := Text.trim_eq_self_iff.mpr
      ⟨fun c hc => hword c (List.mem_of_head? hc), fun c hc => hword c (List.mem_of_getLast? hc)⟩
    have huncut : Text.cutBefore? Text.isBlank word = none := by
      rw [Text.cutBefore?, List.dropWhile_eq_nil_iff.mpr hall]
    simp [splitWord, htrimmed, huncut]
  | cons d ds =>
    have htrimmed : Text.trim (word ++ ' ' :: d :: ds) = word ++ ' ' :: d :: ds :=
      Text.trim_word_text hne hword htext
    have hcut : Text.cutBefore? Text.isBlank (word ++ ' ' :: d :: ds) =
        some (word, ' ' :: d :: ds) := by
      rw [Text.cutBefore?, List.dropWhile_append_of_pos hall, List.takeWhile_append_of_pos hall]
      simp [hblank]
    have hrest : Text.trim (' ' :: d :: ds) = d :: ds := by
      rw [Text.trim, Text.trimStart, List.dropWhile_cons_of_pos hblank]
      exact htext
    simp [splitWord, htrimmed, hcut, hrest]

/-- A parameter that was written with its description is read back. -/
theorem named?_trim (hne : word ≠ []) (hword : ∀ c ∈ word, Text.isBlank c = false)
    (htext : Text.trim text = text) :
    named? none (Text.trim (word ++ ' ' :: text)) = some ⟨word, none, text⟩ := by
  simp [named?, splitWord_trim hne hword htext, hne]

/-- The documentation of the first declared parameter is found wherever it stands, and the rest is
    the documentation of the others. -/
theorem exists_middle_of_perm {p : Param} {ps qs : List Param} (h : qs.Perm (p :: ps))
    (hnodup : ((p :: ps).map (·.name)).Nodup) :
    ∃ before after, qs = before ++ p :: after ∧ (∀ q ∈ before, q.name ≠ p.name) ∧
      (before ++ after).Perm ps := by
  obtain ⟨before, after, rfl⟩ := List.append_of_mem (h.mem_iff.mpr List.mem_cons_self)
  have hrest : (before ++ after).Perm ps := (List.perm_middle.symm.trans h).cons_inv
  refine ⟨before, after, rfl, ?_, hrest⟩
  intro q hq hname
  obtain ⟨hnew, -⟩ := List.nodup_cons.mp hnodup
  exact hnew (List.mem_map.mpr ⟨q, hrest.subset (List.mem_append_left _ hq), hname⟩)

/-- Parameters that are documented in any order are put into the order of the declaration, and none
    is left over. -/
theorem declared_of_perm {ps qs : List Param} (h : qs.Perm ps)
    (hnodup : (ps.map (·.name)).Nodup) :
    declared (ps.map (·.name)) qs = ps ∧ undeclared (ps.map (·.name)) qs = [] := by
  induction ps generalizing qs with
  | nil =>
    rw [h.eq_nil]
    exact ⟨rfl, rfl⟩
  | cons p ps ih =>
    obtain ⟨before, after, rfl, hbefore, hrest⟩ := exists_middle_of_perm h hnodup
    have hpassed : before.find? (·.name = p.name) = none := by
      simpa [List.find?_eq_none] using hbefore
    have hfind : (before ++ p :: after).find? (·.name = p.name) = some p := by
      rw [List.find?_append, hpassed]
      simp
    have herase : (before ++ p :: after).eraseP (·.name = p.name) = before ++ after := by
      rw [List.eraseP_append_right _ (by simpa using hbefore)]
      simp
    obtain ⟨hdeclared, hundeclared⟩ := ih hrest (List.nodup_cons.mp hnodup).2
    rw [List.map_cons, declared, undeclared, hfind, herase, hdeclared, hundeclared]
    exact ⟨rfl, rfl⟩

end SourceDoc.Param
