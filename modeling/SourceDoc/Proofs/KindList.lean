import Mathlib.Data.List.Nodup
import SourceDoc.Kind
import SourceDoc.Proofs.Keyed

namespace SourceDoc

/-- A kind under its id. -/
def Kind.entry (kind : Kind) : Text × Kind :=
  (kind.id, kind)

/-- A kind knows its id, so facts about dictionaries carry over to lists of kinds. -/
theorem Kind.entry_injective : Function.Injective Kind.entry := fun _ _ h => congrArg Prod.snd h

/-- Registered kinds are a dictionary by their ids. -/
theorem Kind.entries_registerIn (kind : Kind) (ks : List Kind) :
    (registerIn kind ks).map entry = Dictionary.put kind.id kind (ks.map entry) :=
  Keyed.map_upsert (by exact fun _ => rfl) (by exact fun _ h => congrArg (·, kind) h.symm) ks

/-- Registering a kind keeps the ids and their order; a new id comes last. -/
theorem Kind.ids_registerIn (kind : Kind) (ks : List Kind) :
    (registerIn kind ks).map (·.id) =
      if kind.id ∈ ks.map (·.id) then ks.map (·.id) else ks.map (·.id) ++ [kind.id] :=
  Keyed.map_key_upsert (by exact fun _ _ => rfl) ks

/-- Where no id is listed twice, a kind is the only one of its id. -/
theorem Kind.filter_id_eq_of_nodup {ks : List Kind} (hnodup : (ks.map (·.id)).Nodup) {kind : Kind}
    (hmem : kind ∈ ks) : ks.filter (·.id = kind.id) = [kind] := by
  induction ks with
  | nil => cases hmem
  | cons k ks ih =>
    rw [List.map_cons, List.nodup_cons] at hnodup
    obtain ⟨hnew, hnodup⟩ := hnodup
    rcases List.mem_cons.mp hmem with rfl | htail
    · have hnone : ks.filter (·.id = kind.id) = [] := by
        rw [List.filter_eq_nil_iff]
        intro k hk hid
        exact hnew (List.mem_map.mpr ⟨k, hk, by simpa using hid⟩)
      simp [hnone]
    · have hne : ¬ k.id = kind.id := fun h => hnew (List.mem_map.mpr ⟨kind, htail, h.symm⟩)
      simp [hne, ih hnodup htail]

attribute [ext] KindList

namespace KindList

/-- Kind lists made from an empty one by registering kinds. However often and in whatever order that
    happens, an id stands for one kind. -/
inductive Registered : KindList → Prop where
  | empty (group : Text) : Registered { group }
  | register {l : KindList} (hl : Registered l) (id title : Text) (childTitle : Option Text) :
      Registered (l.register id title childTitle)

/-- Registration lists no id twice. -/
theorem nodup_ids_register {l : KindList} (hl : (l.kinds.map (·.id)).Nodup) (id title : Text)
    (childTitle : Option Text) : ((l.register id title childTitle).kinds.map (·.id)).Nodup :=
  Keyed.nodup_map_key_upsert (by exact fun _ _ => rfl) hl

/-- An id stands for one kind, which is what lookups and grouping by ids rely on. -/
theorem Registered.nodup_ids {l : KindList} (hl : l.Registered) : (l.kinds.map (·.id)).Nodup := by
  induction hl with
  | empty group => exact List.nodup_nil
  | @register l hl id title childTitle ih => exact nodup_ids_register ih id title childTitle

/-- The kinds of items known from the start are registered ones. -/
theorem registered_ofItems : ofItems.Registered :=
  ((((Registered.empty "section").register Kind.functionId "Functions" (some "Parameters")).register
    Kind.tableId "Tables" (some "Fields")).register Kind.fieldId "Fields" none).register
    Kind.localFunctionId "Local Functions" (some "Parameters")

/-- The kinds of modules known from the start are registered ones. -/
theorem registered_ofModules : ofModules.Registered :=
  ((Registered.empty "type").register Kind.moduleId "Modules" none).register Kind.scriptId "Scripts"
    none

theorem contains_iff (l : KindList) (id : Text) :
    l.contains id = true ↔ ∃ kind ∈ l.kinds, kind.id = id := by
  simp [contains, get?, List.find?_isSome]

theorem contains_iff_mem_ids (l : KindList) (id : Text) :
    l.contains id = true ↔ id ∈ l.kinds.map (·.id) := by
  rw [contains_iff, List.mem_map]

theorem contains_register (l : KindList) (id title : Text) (childTitle : Option Text) :
    (l.register id title childTitle).contains id = true := by
  rw [contains_iff_mem_ids, register, Kind.ids_registerIn]
  split
  · assumption
  · simp

/-- A list of the same group that has all kinds of another one at the same positions, under titles
    that may have changed, and maybe more kinds behind them. -/
structure Extends (l later : KindList) : Prop where
  group : later.group = l.group
  ids : l.kinds.map (·.id) <+: later.kinds.map (·.id)

theorem Extends.refl (l : KindList) : l.Extends l :=
  ⟨rfl, List.prefix_rfl⟩

theorem Extends.trans {l m n : KindList} (hlm : l.Extends m) (hmn : m.Extends n) : l.Extends n :=
  ⟨hmn.group.trans hlm.group, hlm.ids.trans hmn.ids⟩

/-- Registering a kind moves none that are listed and changes the titles of at most one. -/
theorem extends_register (l : KindList) (id title : Text) (childTitle : Option Text) :
    l.Extends (l.register id title childTitle) := by
  refine ⟨rfl, ?_⟩
  rw [register, Kind.ids_registerIn]
  split
  · exact List.prefix_rfl
  · exact List.prefix_append _ _

/-- Kinds that were known stay known. -/
theorem Extends.contains {l later : KindList} (h : l.Extends later) {id : Text}
    (hid : l.contains id = true) : later.contains id = true := by
  rw [contains_iff_mem_ids] at hid ⊢
  exact h.ids.subset hid

/-- Among registered kinds only one has a given id. -/
theorem Registered.filter_id_eq {l : KindList} (hl : l.Registered) {kind : Kind}
    (hmem : kind ∈ l.kinds) : l.kinds.filter (·.id = kind.id) = [kind] :=
  Kind.filter_id_eq_of_nodup hl.nodup_ids hmem

/-- Registers kinds one after the other. -/
def registerAll (l : KindList) (kinds : List Kind) : KindList :=
  kinds.foldl (fun l kind => l.register kind.id kind.title kind.childTitle) l

theorem registerAll_append (l : KindList) (kinds more : List Kind) :
    l.registerAll (kinds ++ more) = (l.registerAll kinds).registerAll more :=
  List.foldl_append

theorem group_registerAll (l : KindList) (kinds : List Kind) :
    (l.registerAll kinds).group = l.group := by
  induction kinds generalizing l with
  | nil => rfl
  | cons kind kinds ih => exact ih (l.register kind.id kind.title kind.childTitle)

theorem extends_registerAll (l : KindList) (kinds : List Kind) : l.Extends (l.registerAll kinds) := by
  induction kinds generalizing l with
  | nil => exact .refl l
  | cons kind kinds ih =>
    exact (extends_register l kind.id kind.title kind.childTitle).trans (ih _)

/-- Registering kinds puts them into the dictionary that the list is by its ids. -/
theorem entries_registerAll (l : KindList) (kinds : List Kind) :
    (l.registerAll kinds).kinds.map Kind.entry =
      Dictionary.putAll (kinds.map Kind.entry) (l.kinds.map Kind.entry) := by
  induction kinds generalizing l with
  | nil => rfl
  | cons kind kinds ih =>
    have hfirst := ih (l.register kind.id kind.title kind.childTitle)
    rwa [register, Kind.entries_registerIn] at hfirst

/-- Kinds that are registered twice are listed as if they had been registered once. -/
theorem registerAll_registerAll (l : KindList) (kinds : List Kind) :
    (l.registerAll kinds).registerAll kinds = l.registerAll kinds := by
  have hgroup : ((l.registerAll kinds).registerAll kinds).group = (l.registerAll kinds).group :=
    group_registerAll ..
  have hkinds : ((l.registerAll kinds).registerAll kinds).kinds = (l.registerAll kinds).kinds := by
    apply Kind.entry_injective.list_map
    rw [entries_registerAll, entries_registerAll, Dictionary.putAll_putAll]
  exact KindList.ext hgroup hkinds

end KindList

end SourceDoc
