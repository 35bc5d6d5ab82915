import Mathlib.Data.List.Nodup
import SourceDoc.Proofs.Keyed
import SourceDoc.Proofs.Tag.Table
import SourceDoc.Tag.DocText

namespace SourceDoc

namespace TagTable

/-- The names of the tags, in their order. -/
def names (t : TagTable) : List Text :=
  t.entries.map (·.1)

/-- Tables that the operations on tables make. -/
inductive Made : TagTable → Prop
  | empty : Made {}
  | insert {t : TagTable} (ht : Made t) (name value : Text) : Made (t.insert name value)
  | set {t : TagTable} (ht : Made t) (name value : Text) : Made (t.set name value)
  | erase {t : TagTable} (ht : Made t) (name : Text) : Made (t.erase name)
  | fillMissing {t other : TagTable} (ht : Made t) (hother : Made other) :
      Made (t.fillMissing other)

theorem contains_eq_false_iff {t : TagTable} {name : Text} :
    t.contains name = false ↔ name ∉ t.names := by
  rw [contains, Option.isSome_eq_false_iff, Option.isNone_iff_eq_none, get?,
    List.lookup_eq_none_iff, names, List.mem_map]
  constructor
  · rintro hall ⟨entry, hentry, rfl⟩
    simpa using hall entry hentry
  · intro hnot entry hentry
    rw [bne_iff_ne]
    rintro rfl
    exact hnot ⟨entry, hentry, rfl⟩

/-- An update leaves the names as they are if its name is among them, and else adds it at the
    end. -/
theorem names_update (name : Text) (change : TagValue → TagValue) (new : TagValue)
    (entries : List (Text × TagValue)) :
    names ⟨Dictionary.update name change new entries⟩ =
      if name ∈ names ⟨entries⟩ then names ⟨entries⟩ else names ⟨entries⟩ ++ [name] :=
  Dictionary.keys_update name change new entries

/-- An update of a tag gives no name a second entry. -/
theorem nodup_names_update {name : Text} {change : TagValue → TagValue} {new : TagValue}
    {t : TagTable} (ht : t.names.Nodup) :
    (names ⟨Dictionary.update name change new t.entries⟩).Nodup :=
  Keyed.nodup_map_key_upsert (by exact fun _ h => h) ht

theorem nodup_names_erase {t : TagTable} (ht : t.names.Nodup) (name : Text) :
    (t.erase name).names.Nodup :=
  ht.sublist ((List.eraseP_sublist).map _)

/-- Whatever the other table is, only names that are absent are added. -/
theorem nodup_names_fillMissing {t : TagTable} (ht : t.names.Nodup) (other : TagTable) :
    (t.fillMissing other).names.Nodup := by
  rw [fillMissing]
  induction other.entries generalizing t with
  | nil => exact ht
  | cons entry entries ih =>
    rw [List.foldl_cons]
    apply ih
    split
    · exact ht
    · rename_i habsent
      rw [Bool.not_eq_true, contains_eq_false_iff] at habsent
      have hadded : names ⟨t.entries ++ [entry]⟩ = t.names.concat entry.1 := by
        simp [names]
      rw [hadded]
      exact ht.concat habsent

/-- Filling in a table adds the entries whose names are new. -/
theorem entries_fillMissing (t other : TagTable) :
    (t.fillMissing other).entries = Keyed.addNew Prod.fst t.entries other.entries := by
  rw [fillMissing, Keyed.addNew]
  induction other.entries generalizing t with
  | nil => rfl
  | cons entry entries ih =>
    have hcontains : t.contains entry.1 = t.entries.any (·.1 = entry.1) := by
      rw [Bool.eq_iff_iff, ← Bool.not_eq_false, contains_eq_false_iff, not_not, names,
        List.mem_map, List.any_eq_true]
      simp
    rw [List.foldl_cons, List.foldl_cons, ih, hcontains]
    split <;> rfl

/-- Several tables are filled into one another alike, from whichever end one starts. -/
theorem fillMissing_assoc (t other more : TagTable) :
    (t.fillMissing other).fillMissing more = t.fillMissing (other.fillMissing more) := by
  have hentries : ((t.fillMissing other).fillMissing more).entries =
      (t.fillMissing (other.fillMissing more)).entries := by
    simp only [entries_fillMissing, Keyed.addNew_addNew]
  exact congrArg TagTable.mk hentries

/-- The names of a table are followed by those that are new. -/
theorem names_fillMissing (t other : TagTable) :
    (t.fillMissing other).names = Keyed.addNew id t.names other.names := by
  rw [names, entries_fillMissing, Keyed.map_key_addNew]
  rfl

/-- A tag has the value it had before; if it had none, that of the other table. -/
theorem get?_fillMissing (t other : TagTable) (name : Text) :
    (t.fillMissing other).get? name = (t.get? name).or (other.get? name) := by
  change _ = (t.get? name).or (other.entries.lookup name)
  rw [fillMissing]
  induction other.entries generalizing t with
  | nil => exact (Option.or_none).symm
  | cons entry entries ih =>
    obtain ⟨key, value⟩ := entry
    rw [List.foldl_cons, ih, Dictionary.lookup_cons_eq_ite]
    split
    · rename_i hpresent
      by_cases hname : name = key
      · obtain ⟨old, hold⟩ := Option.isSome_iff_exists.mp hpresent
        rw [if_pos hname, hname, hold]
        rfl
      · rw [if_neg hname]
    · rw [get?, List.lookup_append, Dictionary.lookup_cons_eq_ite, Option.or_assoc, List.lookup_nil]
      split <;> rfl

/-- Tables that the operations make have each name once, whatever they were made of. -/
theorem Made.nodup_names {t : TagTable} (ht : t.Made) : t.names.Nodup := by
  induction ht with
  | empty => exact List.nodup_nil
  | insert _ name value ih => exact nodup_names_update ih
  | set _ name value ih => exact nodup_names_update ih
  | erase _ name ih => exact nodup_names_erase ih name
  | fillMissing _ _ ih _ => exact nodup_names_fillMissing ih _

end TagTable

namespace DocText

theorem made_tags_nameEntity {d : DocText} (hd : d.tags.Made) (tag value : Text) :
    (d.nameEntity tag value).tags.Made := by
  have hclassed := hd.set "class" tag
  unfold nameEntity
  dsimp only
  split
  · exact hclassed
  · exact hclassed.set "name" _

/-- Adding a tag to a doc text comes down to operations on its table. -/
theorem made_tags_addTag {d : DocText} (hd : d.tags.Made) (rules : TagRules) (tag value : Text) :
    (d.addTag rules tag value).tags.Made := by
  unfold addTag
  extract_lets opened
  have hopened : opened.tags.Made := by
    unfold opened
    split <;> exact hd
  split
  · split
    · exact made_tags_nameEntity hopened tag value
    · exact hopened.insert tag value
  · exact hopened.insert tag value

theorem made_tags_foldl_addTag {d : DocText} (hd : d.tags.Made) (rules : TagRules)
    (entries : List (Text × Text)) :
    (entries.foldl (fun d entry => d.addTag rules entry.1 entry.2) d).tags.Made := by
  induction entries generalizing d with
  | nil => exact hd
  | cons entry entries ih => exact ih (made_tags_addTag hd rules entry.1 entry.2)

/-- Each tag of a doc text has one entry, whatever the rules are. -/
theorem made_tags_read (rules : TagRules) (t : Text) : (read rules t).tags.Made :=
  made_tags_foldl_addTag .empty rules _

end DocText

end SourceDoc
