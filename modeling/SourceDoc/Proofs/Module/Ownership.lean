import SourceDoc.Proofs.Module.Merge

namespace SourceDoc.SourceFile

variable (f : SourceFile) (kinds : KindList) (options : ProjectOptions)

/-- Name of the module that items after `before` belong to. The last item before them that is of a
    module kind gives the name, whether it opens a module or renames the one just opened; without
    such an item it is the name inferred for the file. -/
def ownerAfter (before : List Item) : Text :=
  ((before.filter (kinds.contains ·.kind)).getLast?).elim (f.inferredName options)
    (f.openedName options)

/-- The items among `items` that belong to the module of a name, where `items` starts at a position
    of the file. -/
def ownedFrom (module : Text) (start : Nat) (items : List Item) : List Item :=
  ((items.zipIdx start).filter fun (item, i) =>
    !kinds.contains item.kind && f.ownerAfter kinds options (f.items.take i) = module).map (·.1)

/-- The items of a file that belong to the module of a name. -/
def owned (module : Text) : List Item :=
  f.ownedFrom kinds options module 0 f.items

/-- Whether items start with an explicit opening, which renames a module that an inferred opening
    right before it has opened. -/
def startsExplicit (items : List Item) : Bool :=
  items.head?.any fun item => kinds.contains item.kind && !item.inferred

/-- Names of the modules that items open. An inferred opening right before an explicit one adds
    none, because its module takes the name of the explicit one. -/
def openedNames : List Item → List Text
  | [] => []
  | item :: items =>
    if kinds.contains item.kind && !(item.inferred && startsExplicit kinds items) then
      f.openedName options item :: openedNames items
    else openedNames items

/-- Names of the modules of a file. Items at its start that no module is opened for belong to one
    with the inferred name. -/
def moduleNames : List Text :=
  if f.items.head?.any fun item => !kinds.contains item.kind then
    f.inferredName options :: f.openedNames kinds options f.items
  else f.openedNames kinds options f.items

/-- An item as the module of the given name holds it. -/
def shortened (module : Text) (item : Item) : Item :=
  { item with name := ModuleName.shortName item.name module }

/-- One item more changes the owner exactly if it opens a module. -/
theorem ownerAfter_concat (before : List Item) (item : Item) :
    f.ownerAfter kinds options (before ++ [item]) =
      if kinds.contains item.kind then f.openedName options item
      else f.ownerAfter kinds options before := by
  by_cases hkind : kinds.contains item.kind = true <;> simp [ownerAfter, hkind]

variable {f kinds options}

@[simp] theorem items_opened (item : Item) : (f.opened options item).items = [] := rfl

/-- One step along a file: an item belongs to the module its predecessors give, if it opens none. -/
theorem ownedFrom_cons {before items : List Item} {item : Item} (module : Text)
    (hitems : f.items = before ++ item :: items) :
    f.ownedFrom kinds options module before.length (item :: items) =
      (if !kinds.contains item.kind && f.ownerAfter kinds options before = module then [item]
        else []) ++ f.ownedFrom kinds options module (before ++ [item]).length items := by
  have htake : f.items.take before.length = before := by simp [hitems]
  simp only [ownedFrom, List.zipIdx_cons, List.filter_cons, htake, List.length_append,
    List.length_singleton]
  split <;> simp

/-- Dealing out items keeps, under each name, what the open module has and adds the items that
    belong there. Only a module without items can still be renamed. -/
theorem itemsNamed_discoverFrom {before items : List Item} {current : ModuleDraft}
    {renamable : Bool} (module : Text) (hitems : f.items = before ++ items)
    (hname : current.name = f.ownerAfter kinds options before)
    (hempty : renamable = true → current.items = []) :
    ModuleDraft.itemsNamed module (discoverFrom f kinds options current renamable items) =
      (if current.name = module then current.items else []) ++
        (f.ownedFrom kinds options module before.length items).map (shortened module) := by
  induction items generalizing before current renamable with
  | nil => simp [discoverFrom, ModuleDraft.itemsNamed_cons, ownedFrom]
  | cons item items ih =>
    have hitems' : f.items = (before ++ [item]) ++ items := by simp [hitems]
    have howner := ownerAfter_concat f kinds options before item
    rw [ownedFrom_cons module hitems, discoverFrom]
    by_cases hkind : kinds.contains item.kind = true
    · rw [if_pos hkind] at howner ⊢
      by_cases hrename : (renamable && !item.inferred) = true
      · have hnone : current.items = [] := hempty (by simp at hrename; exact hrename.1)
        rw [if_pos hrename, ih hitems' (by rw [howner]; rfl) (by simp)]
        simp [renamed, ModuleDraft.absorbDoc, hnone, hkind]
      · rw [if_neg hrename, ModuleDraft.itemsNamed_cons, ih hitems' (by rw [howner]; rfl) (fun _ => rfl)]
        simp [hkind]
    · rw [if_neg hkind] at howner ⊢
      rw [ih hitems' (by rw [howner]; exact hname) (by simp)]
      by_cases hmodule : current.name = module
      · have hafter : f.ownerAfter kinds options before = module := hname.symm.trans hmodule
        simp [ModuleDraft.addItem, hmodule, hkind, hafter, shortened]
      · have hafter : ¬ f.ownerAfter kinds options before = module := fun h => hmodule (hname.trans h)
        simp [ModuleDraft.addItem, hmodule, hkind, hafter]

/-- The modules found in a file hold, under each name, the items that belong to that name. -/
theorem itemsNamed_discover (module : Text) :
    ModuleDraft.itemsNamed module (f.discover kinds options) =
      (f.owned kinds options module).map (shortened module) := by
  unfold discover owned
  cases hitems : f.items with
  | nil => simp [ownedFrom]
  | cons item items =>
    have hstart : f.items = [] ++ item :: items := hitems
    have hrest : f.items = [item] ++ items := hitems
    have howner := ownerAfter_concat f kinds options [] item
    have hcons : f.ownedFrom kinds options module 0 (item :: items) = _ :=
      ownedFrom_cons module hstart
    rw [List.nil_append] at hcons howner
    rw [hcons]
    dsimp only
    by_cases hkind : kinds.contains item.kind = true
    · rw [if_pos hkind] at howner ⊢
      rw [itemsNamed_discoverFrom module hrest (by rw [howner]; rfl) (fun _ => rfl)]
      simp [hkind]
    · rw [if_neg hkind] at howner ⊢
      rw [itemsNamed_discoverFrom module hrest (by rw [howner]; rfl) (by simp)]
      have hafter : f.ownerAfter kinds options [] = f.inferredName options := rfl
      by_cases hmodule : f.inferredName options = module
      · simp [inferred, ModuleDraft.addItem, hmodule, hkind, hafter, shortened]
      · simp [inferred, ModuleDraft.addItem, hmodule, hkind, hafter]

/-- The names met from any item of a file on. The module that is open there keeps its name, unless
    it was inferred and an explicit opening renames it at once. -/
theorem names_discoverFrom (current : ModuleDraft) (renamable : Bool) (items : List Item) :
    (discoverFrom f kinds options current renamable items).map (·.name) =
      if renamable && startsExplicit kinds items then f.openedNames kinds options items
      else current.name :: f.openedNames kinds options items := by
  induction items generalizing current renamable with
  | nil => simp [discoverFrom, startsExplicit, openedNames]
  | cons item items ih =>
    rw [discoverFrom, openedNames]
    by_cases hkind : kinds.contains item.kind = true
    · rw [if_pos hkind]
      by_cases hrename : (renamable && !item.inferred) = true
      · obtain ⟨hrenamable, hexplicit⟩ : renamable = true ∧ item.inferred = false := by
          simpa using hrename
        rw [if_pos hrename, ih]
        simp [startsExplicit, hkind, hrenamable, hexplicit, renamed, ModuleDraft.absorbDoc]
      · have hkept : (renamable && startsExplicit kinds (item :: items)) = false := by
          simpa [startsExplicit, hkind] using hrename
        rw [if_neg hrename, List.map_cons, ih, hkept]
        simp only [hkind, Bool.true_and, Bool.not_eq_true', Bool.false_eq_true, if_false]
        by_cases hrenamed : (item.inferred && startsExplicit kinds items) = true
        · simp [hrenamed]
        · simp [hrenamed, opened, ModuleDraft.absorbDoc]
    · rw [if_neg hkind, ih]
      simp [startsExplicit, hkind, ModuleDraft.addItem]

/-- The modules found in a file have the names that its items open, in order. -/
theorem names_discover :
    (f.discover kinds options).map (·.name) = f.moduleNames kinds options := by
  unfold discover moduleNames
  cases hitems : f.items with
  | nil => rfl
  | cons item items =>
    dsimp only
    by_cases hkind : kinds.contains item.kind = true
    · rw [if_pos hkind, names_discoverFrom, openedNames]
      by_cases hrenamed : (item.inferred && startsExplicit kinds items) = true
      · simp [hkind, hrenamed]
      · simp [hkind, hrenamed, opened, ModuleDraft.absorbDoc]
    · rw [if_neg hkind, names_discoverFrom, openedNames]
      simp [hkind, inferred, ModuleDraft.addItem]

/-- What holds of the module inferred for a file and of every module an item opens, and is kept when
    a module is renamed or takes an item, holds of all modules found in the file. -/
theorem forall_mem_discover {P : ModuleDraft → Prop} (hinferred : P (f.inferred options))
    (hopened : ∀ item, P (f.opened options item))
    (hrenamed : ∀ m item, P m → P (f.renamed options m item))
    (hadded : ∀ m item, P m → P (m.addItem item)) : ∀ m ∈ f.discover kinds options, P m := by
  have hfrom (items : List Item) : ∀ current renamable, P current →
      ∀ m ∈ discoverFrom f kinds options current renamable items, P m := by
    induction items with
    | nil =>
      intro current renamable hcurrent
      simpa [discoverFrom] using hcurrent
    | cons item items ih =>
      intro current renamable hcurrent
      rw [discoverFrom]
      split
      · split
        · exact ih _ _ (hrenamed current item hcurrent)
        · exact List.forall_mem_cons.mpr ⟨hcurrent, ih _ _ (hopened item)⟩
      · exact ih _ _ (hadded current item hcurrent)
  unfold discover
  split
  · exact List.forall_mem_nil _
  · split
    · exact hfrom _ _ _ (hopened _)
    · exact hfrom _ _ _ (hadded _ _ hinferred)

end SourceDoc.SourceFile
