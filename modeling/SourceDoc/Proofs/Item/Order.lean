import Mathlib.Data.List.Basic
import SourceDoc.Item.Build
import SourceDoc.Proofs.Tag.Values

namespace SourceDoc

/-- Taking out the elements with a property and putting them first changes nothing exactly if they
    stand first. -/
theorem filter_append_filter_not_eq_self_iff {α : Type} {p : α → Bool} {l : List α} :
    l.filter p ++ l.filter (fun a => !p a) = l ↔
      l.Pairwise fun a b => p b = true → p a = true := by
  constructor
  · intro heq
    rw [← heq, List.pairwise_append]
    refine ⟨List.pairwise_of_forall_mem_list ?_, List.pairwise_of_forall_mem_list ?_, ?_⟩
    · intro a ha b _ _
      exact (List.mem_filter.mp ha).2
    · intro a _ b hb hpb
      simp [hpb] at hb
    · intro a ha b _ _
      exact (List.mem_filter.mp ha).2
  · intro hfirst
    induction l with
    | nil => rfl
    | cons a l ih =>
      obtain ⟨ha, hl⟩ := List.pairwise_cons.mp hfirst
      cases hp : p a with
      | true => simp [hp, ih hl]
      | false =>
        -- none of the others has the property either
        have hnone : ∀ b ∈ l, p b = false := by
          intro b hb
          by_contra hpb
          simp [ha b hb (by simpa using hpb)] at hp
        have hkept : l.filter p = [] := List.filter_eq_nil_iff.mpr fun b hb => by simp [hnone b hb]
        have hrest : l.filter (fun b => !p b) = l :=
          List.filter_eq_self.mpr fun b hb => by simp [hnone b hb]
        simp [hp, hkept, hrest]

/-- Two tags for entries of one sort: the values of one are read as entries without a type, those of
    the other as entries with one. -/
structure TagPair (α : Type) where
  plain : Text
  typed : Text
  type : α → Option Text
  readPlain? : Text → Option α
  readTyped? : Text → Option α
  typed_ne_plain : typed ≠ plain
  type_of_readPlain : ∀ value a, readPlain? value = some a → type a = none
  type_of_readTyped : ∀ value a, readTyped? value = some a → type a ≠ none

/-- A parameter has the type it was read with, so the tag it stood under can be told from it. -/
theorem Param.type_of_named? {type : Option Text} {value : Text} {param : Param}
    (h : named? type value = some param) : param.type = type := by
  rw [named?] at h
  dsimp only at h
  split at h
  · cases h
  · cases h
    rfl

namespace TagPair

/-- Two tags for named children of an item. -/
def children (plain typed : Text) (h : typed ≠ plain) : TagPair Param where
  plain := plain
  typed := typed
  type := Param.type
  readPlain? := Param.named? none
  readTyped? := Param.typed?
  typed_ne_plain := h
  type_of_readPlain _ _ hread := Param.type_of_named? hread
  type_of_readTyped value param hread := by
    rw [Param.type_of_named? hread]
    exact Option.some_ne_none _

/-- Parameters with and without a type. -/
def params : TagPair Param :=
  children "param" "tparam" (by decide)

/-- Fields with and without a type. -/
def fields : TagPair Param :=
  children "field" "tfield" (by decide)

/-- Returned values with and without a type. Without one the whole value describes them. -/
def returns : TagPair ReturnValue where
  plain := "return"
  typed := "treturn"
  type := ReturnValue.type
  readPlain? value := some ⟨none, value⟩
  readTyped? value := some ⟨some (Param.splitWord value).1, (Param.splitWord value).2⟩
  typed_ne_plain := by decide
  type_of_readPlain := by
    rintro value _ ⟨⟩
    rfl
  type_of_readTyped := by
    rintro value _ ⟨⟩
    exact Option.some_ne_none _

variable {α : Type} (pair : TagPair α)

/-- The entry that a tag with its value documents. -/
def read? (tag : Text × Text) : Option α :=
  if tag.1 = pair.plain then pair.readPlain? tag.2
  else if tag.1 = pair.typed then pair.readTyped? tag.2
  else none

/-- The entries that tags document, in the order of the tags. -/
def entries (tags : List (Text × Text)) : List α :=
  tags.filterMap pair.read?

/-- Entries that are kept exactly if they are of one tag are what the values of that tag read as. -/
theorem filter_entries {keep : α → Bool} {tag : Text} {ofValue? : Text → Option α}
    (h : ∀ entry, (pair.read? entry).filter keep = if entry.1 = tag then ofValue? entry.2 else none)
    (tags : List (Text × Text)) :
    (pair.entries tags).filter keep =
      ((tags.filter (·.1 = tag)).map (·.2)).filterMap ofValue? := by
  rw [entries, List.filter_filterMap, List.filterMap_map, List.filterMap_filter]
  refine List.filterMap_congr ?_
  intro entry _
  rw [h]
  simp

theorem filter_untyped_entries (tags : List (Text × Text)) :
    (pair.entries tags).filter (fun a => (pair.type a).isNone) =
      ((tags.filter (·.1 = pair.plain)).map (·.2)).filterMap pair.readPlain? := by
  refine pair.filter_entries ?_ tags
  intro entry
  rw [read?]
  split
  · cases hread : pair.readPlain? entry.2 with
    | none => rfl
    | some a => simp [Option.filter_some, pair.type_of_readPlain entry.2 a hread]
  · rw [Option.filter_eq_none_iff]
    intro a hread huntyped
    split at hread
    · exact pair.type_of_readTyped entry.2 a hread (Option.isNone_iff_eq_none.mp huntyped)
    · cases hread

theorem filter_typed_entries (tags : List (Text × Text)) :
    (pair.entries tags).filter (fun a => !(pair.type a).isNone) =
      ((tags.filter (·.1 = pair.typed)).map (·.2)).filterMap pair.readTyped? := by
  refine pair.filter_entries ?_ tags
  intro entry
  rw [read?]
  split
  · rename_i hplain
    rw [if_neg (hplain ▸ pair.typed_ne_plain.symm), Option.filter_eq_none_iff]
    intro a hread
    simp [pair.type_of_readPlain entry.2 a hread]
  · split
    · cases hread : pair.readTyped? entry.2 with
      | none => rfl
      | some a => simp [Option.filter_some, pair.type_of_readTyped entry.2 a hread]
    · rfl

/-- A list has the entries that tags document, those without a type before those with one and
    otherwise in the order of the tags. That is their order unless one with a type is written before
    one without. -/
structure UntypedFirst (tags : List (Text × Text)) (listed : List α) : Prop where
  eq_append : listed = (pair.entries tags).filter (fun a => (pair.type a).isNone) ++
    (pair.entries tags).filter (fun a => !(pair.type a).isNone)
  in_order_iff : listed = pair.entries tags ↔
    (pair.entries tags).Pairwise fun a b => pair.type b = none → pair.type a = none

/-- Listing the values of one tag before those of the other puts entries without a type first. -/
theorem untypedFirst_append (tags : List (Text × Text)) :
    pair.UntypedFirst tags
      (((tags.filter (·.1 = pair.plain)).map (·.2)).filterMap pair.readPlain? ++
        ((tags.filter (·.1 = pair.typed)).map (·.2)).filterMap pair.readTyped?) := by
  rw [← pair.filter_untyped_entries, ← pair.filter_typed_entries]
  refine ⟨rfl, ?_⟩
  rw [filter_append_filter_not_eq_self_iff]
  simp only [Option.isNone_iff_eq_none]

end TagPair

namespace Item

variable {rules : TagRules}

/-- What is left of the tags for an item has all values of tags that only hold values. -/
theorem values_otherTags {key : Text} (hkey : rules.OnlyHolds key) (t : Text) :
    (otherTags (.read rules t)).values key =
      ((DocText.canonicalTags rules t).filter (·.1 = key)).map (·.2) := by
  rw [otherTags, TagTable.values_erase_of_ne hkey.ne_name, TagTable.values_erase_of_ne hkey.ne_class,
    DocText.values_read hkey]

/-- The values of one tag, then those of the other: so the table of tags hands them over, which
    keeps an order for each tag only. -/
theorem untypedFirst_otherTags {α : Type} (pair : TagPair α) (hplain : rules.OnlyHolds pair.plain)
    (htyped : rules.OnlyHolds pair.typed) (t : Text) :
    pair.UntypedFirst (DocText.canonicalTags rules t)
      (((otherTags (.read rules t)).values pair.plain).filterMap pair.readPlain? ++
        ((otherTags (.read rules t)).values pair.typed).filterMap pair.readTyped?) := by
  rw [values_otherTags hplain, values_otherTags htyped]
  exact pair.untypedFirst_append _

/-- Returned values are read from their two tags one after the other. -/
theorem returnsOf_eq (tags : TagTable) :
    returnsOf tags =
      (tags.values "return").filterMap TagPair.returns.readPlain? ++
        (tags.values "treturn").filterMap TagPair.returns.readTyped? := by
  rw [returnsOf, ← List.filterMap_eq_map, ← List.filterMap_eq_map]
  rfl

/-- An item without a declaration lists its parameters, its returned values and its fields with
    those without a type first. -/
theorem build?_lists_untyped_first {t : Text} {file : Path} {line : Nat} {item : Item}
    (h : build? (.read .standard t) none file line = some item) :
    TagPair.params.UntypedFirst (DocText.canonicalTags .standard t) item.params ∧
      TagPair.returns.UntypedFirst (DocText.canonicalTags .standard t) item.returns ∧
      TagPair.fields.UntypedFirst (DocText.canonicalTags .standard t) item.fields := by
  obtain ⟨kind, kindInferred, name, nameInferred, -, -, rfl⟩ := eq_of_build? h
  refine ⟨?_, ?_, ?_⟩
  · exact untypedFirst_otherTags TagPair.params (by decide) (by decide) t
  · dsimp only
    rw [returnsOf_eq]
    exact untypedFirst_otherTags TagPair.returns (by decide) (by decide) t
  · exact untypedFirst_otherTags TagPair.fields (by decide) (by decide) t

/-- A doc text in which each entry with a type is written before the one without. -/
def mixedText : Text :=
  Text.join "\n" ["@function f", "@tparam string a first", "@param b second",
    "@treturn string the name", "@return the count", "@tfield number x left", "@field y right"]

/-- The tags of `mixedText`. -/
def mixedTags : List (Text × Text) :=
  [("function", "f"), ("tparam", "string a first"), ("param", "b second"),
    ("treturn", "string the name"), ("return", "the count"), ("tfield", "number x left"),
    ("field", "y right")]

/-- The item that `mixedText` documents. -/
def mixedItem : Item where
  name := "f"
  kind := Kind.functionId
  summary := []
  description := []
  params := [⟨"b", none, "second"⟩, ⟨"a", some "string", "first"⟩]
  returns := [⟨none, "the count"⟩, ⟨some "string", "the name"⟩]
  fields := [⟨"y", none, "right"⟩, ⟨"x", some "number", "left"⟩]
  tags := ⟨[("tparam", .single "string a first"), ("param", .single "b second"),
    ("treturn", .single "string the name"), ("return", .single "the count"),
    ("tfield", .single "number x left"), ("field", .single "y right")]⟩
  line := 1
  inferred := false
  file := ⟨"m.lua"⟩

theorem canonicalTags_mixedText : DocText.canonicalTags .standard mixedText = mixedTags := by
  decide +kernel

theorem build?_mixedText :
    build? (.read .standard mixedText) none ⟨"m.lua"⟩ 1 = some mixedItem := by
  rw [DocText.read, canonicalTags_mixedText]
  decide +kernel

theorem build?_lists_untyped_first_mixed :
    build? (.read .standard mixedText) none ⟨"m.lua"⟩ 1 = some mixedItem ∧
      TagPair.params.UntypedFirst (DocText.canonicalTags .standard mixedText) mixedItem.params ∧
      TagPair.returns.UntypedFirst (DocText.canonicalTags .standard mixedText) mixedItem.returns ∧
      TagPair.fields.UntypedFirst (DocText.canonicalTags .standard mixedText) mixedItem.fields :=
  ⟨build?_mixedText, build?_lists_untyped_first build?_mixedText⟩

/-- The order of the text is lost for parameters, for returned values and for fields alike. -/
theorem build?_mixed_order_lost :
    ∃ item, build? (.read .standard mixedText) none ⟨"m.lua"⟩ 1 = some item ∧
      item.params ≠ TagPair.params.entries (DocText.canonicalTags .standard mixedText) ∧
      item.returns ≠ TagPair.returns.entries (DocText.canonicalTags .standard mixedText) ∧
      item.fields ≠ TagPair.fields.entries (DocText.canonicalTags .standard mixedText) := by
  refine ⟨mixedItem, build?_mixedText, ?_⟩
  rw [canonicalTags_mixedText]
  decide +kernel

end Item

end SourceDoc
