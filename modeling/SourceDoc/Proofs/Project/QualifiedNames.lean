import SourceDoc.Proofs.Project.Links
import SourceDoc.Proofs.Text.Words

namespace SourceDoc

namespace Link

/-- Whether a character can stand between the name of a module and that of an item. -/
def isSeparator (c : Char) : Bool :=
  c == '.' || c == ':'

end Link

namespace ModuleDraft

/-- What follows the last separator is taken for the name of an item. -/
theorem qualified?_append (ms : List ModuleDraft) (module : Text) {mark : Char}
    (hmark : Link.isSeparator mark = true) {item : Text}
    (hitem : ∀ c ∈ item, Link.isSeparator c = false) :
    qualified? ms (module ++ mark :: item) =
      if defines ms module item then some (.toItem module item) else none := by
  have hcut : Text.cutAroundLast? (fun c => c == '.' || c == ':') (module ++ mark :: item) =
      some (module, item) := Text.cutAroundLast?_append hmark hitem module
  rw [qualified?, hcut]

/-- A text that names neither an item nor a module is tried as a qualified name. -/
theorem target?_of_unlisted {ms : List ModuleDraft} {t : Text}
    (hexternal : Link.isExternal t = false) (hitems : ∀ m ∈ ms, ∀ item ∈ m.items, item.name ≠ t)
    (hmodules : ∀ m ∈ ms, m.name ≠ t) (current : Text) :
    target? ms current t = qualified? ms t := by
  have hdefines : defines ms current t = false := by
    rw [← Bool.not_eq_true, defines_iff]
    rintro ⟨m, hm, -, item, hitem, hname⟩
    exact hitems m hm item hitem hname
  have hfind : ms.find? (·.hasItem t) = none := by
    rw [List.find?_eq_none]
    intro m hm hitem
    obtain ⟨item, hitem, hname⟩ := (hasItem_iff m t).mp hitem
    exact hitems m hm item hitem hname
  have hany : ms.any (·.name = t) = false := by
    simpa using hmodules
  simp [target?, hexternal, hdefines, hfind, hany]

end ModuleDraft

namespace Project

/-- Whether a project shows an item of a name in the module of a name. -/
def shows (p : Project) (module item : Text) : Bool :=
  p.modules.any fun m => m.name = module && m.items.any (·.name = item)

variable {files : List SourceFile} {itemKinds moduleKinds : KindList} {options : ProjectOptions}
  {ms : List ModuleDraft}

/-- Grouping and linking neither hide an item nor rename it. -/
theorem any_name_linkedModule (hkinds : itemKinds.Registered) {m : ModuleDraft}
    (hitems : ∀ item ∈ m.items, itemKinds.contains item.kind = true) (name : Text) :
    (linkedModule itemKinds ms m).items.any (·.name = name) = m.hasItem name := by
  rw [(items_linkedModule_perm hkinds ms hitems).any_eq, List.any_map]
  rfl

/-- Whether an item is shown under an address can be asked before linking or after it. -/
theorem shows_linked (hkinds : itemKinds.Registered)
    (hitems : ∀ m ∈ ms, ∀ item ∈ m.items, itemKinds.contains item.kind = true)
    (title : Option Text) (index : List IndexSection) (module item : Text) :
    shows ⟨title, linked itemKinds ms, index⟩ module item =
      ModuleDraft.defines ms module item := by
  rw [shows, linked_eq_map, List.any_map, ModuleDraft.defines, Bool.eq_iff_iff, List.any_eq_true,
    List.any_eq_true]
  refine exists_congr fun m => and_congr_right fun hm => ?_
  rw [Function.comp_apply, any_name_linkedModule hkinds (hitems m hm)]
  rfl

/-- The target of a reference in an assembled project that names no item and no module by itself. -/
theorem target_of_unlisted (hkinds : itemKinds.Registered) {p : Project}
    (hp : assemble files itemKinds moduleKinds options = .ok p) {own : Module}
    (hown : own ∈ p.modules) {referring : Item} (hreferring : referring ∈ own.items) {r : Reference}
    (hr : r ∈ referring.see) (hexternal : Link.isExternal r.text = false)
    (hitem : ∀ other ∈ p.modules, ∀ item ∈ other.items, item.name ≠ r.text)
    (hmodule : ∀ other ∈ p.modules, other.name ≠ r.text) :
    r.target = ModuleDraft.qualified? (shown files moduleKinds options) r.text := by
  obtain ⟨hkindsOf, -, rfl⟩ := assemble_eq_ok_iff.mp hp
  dsimp only at hown hitem hmodule
  rw [linked_eq_map] at hown hitem hmodule
  obtain ⟨draft, hdraft, rfl⟩ := List.mem_map.mp hown
  obtain ⟨source, -, rfl⟩ :=
    (mem_items_linkedModule hkinds (hkindsOf draft hdraft)).mp hreferring
  obtain ⟨reference, -, rfl⟩ := List.mem_map.mp hr
  refine ModuleDraft.target?_of_unlisted hexternal ?_ ?_ draft.name
  · intro m hm item hmem
    refine hitem _ (List.mem_map_of_mem hm)
      (ModuleDraft.linkItem (shown files moduleKinds options) m.name item) ?_
    exact (mem_items_linkedModule hkinds (hkindsOf m hm)).mpr ⟨item, hmem, rfl⟩
  · intro m hm
    exact hmodule _ (List.mem_map_of_mem hm)

/-- What becomes of a reference to an item by its qualified name. It leads to the item exactly if
    the name of the item has no separator in it. If it has one, the part of the name before the last
    one is taken for a part of the name of the module: the reference leads to an item of that other
    module if there is one, and nowhere else. -/
theorem assemble_qualified_reference (hkinds : itemKinds.Registered) {p : Project}
    (hp : assemble files itemKinds moduleKinds options = .ok p) {m : Module} (hm : m ∈ p.modules)
    {i : Item} (hi : i ∈ m.items) {own : Module} (hown : own ∈ p.modules) {referring : Item}
    (hreferring : referring ∈ own.items) {r : Reference} (hr : r ∈ referring.see) {mark : Char}
    (hmark : Link.isSeparator mark = true) (htext : r.text = m.name ++ mark :: i.name)
    (hexternal : Link.isExternal r.text = false)
    (hitem : ∀ other ∈ p.modules, ∀ item ∈ other.items, item.name ≠ r.text)
    (hmodule : ∀ other ∈ p.modules, other.name ≠ r.text) :
    (r.target = some (.toItem m.name i.name) ↔ ∀ c ∈ i.name, Link.isSeparator c = false) ∧
    ∀ table inner rest, i.name = table ++ inner :: rest → Link.isSeparator inner = true →
      (∀ c ∈ rest, Link.isSeparator c = false) →
      r.target = if p.shows (m.name ++ mark :: table) rest then
        some (.toItem (m.name ++ mark :: table) rest) else none := by
  have htarget := target_of_unlisted hkinds hp hown hreferring hr hexternal hitem hmodule
  obtain ⟨hkindsOf, -, hproject⟩ := assemble_eq_ok_iff.mp hp
  have hshows (module item : Text) : p.shows module item =
      ModuleDraft.defines (shown files moduleKinds options) module item := by
    rw [hproject]
    exact shows_linked hkinds hkindsOf _ _ module item
  have hcut : ∀ table inner rest, i.name = table ++ inner :: rest → Link.isSeparator inner = true →
      (∀ c ∈ rest, Link.isSeparator c = false) →
      r.target = if p.shows (m.name ++ mark :: table) rest then
        some (.toItem (m.name ++ mark :: table) rest) else none := by
    intro table inner rest hname hinner hrest
    have hsplit : r.text = (m.name ++ mark :: table) ++ inner :: rest := by simp [htext, hname]
    rw [htarget, hsplit, ModuleDraft.qualified?_append _ _ hinner hrest, hshows]
  refine ⟨⟨?_, ?_⟩, hcut⟩
  · intro hlink
    by_contra hplain
    have hsome : ∃ c ∈ i.name, Link.isSeparator c = true := by simpa using hplain
    obtain ⟨table, inner, rest, hname, hinner, hrest⟩ := Text.exists_last_separator hsome
    rw [hcut table inner rest hname hinner hrest] at hlink
    split at hlink
    · -- the module of the link has a longer name than that of the item
      have hmoduleName : m.name ++ mark :: table = m.name :=
        congrArg Link.module (Option.some.inj hlink)
      simp at hmoduleName
    · cases hlink
  · intro hplain
    have hshown : p.shows m.name i.name = true := by
      rw [shows, List.any_eq_true]
      refine ⟨m, hm, ?_⟩
      simpa using ⟨i, hi, rfl⟩
    rw [htarget, htext, ModuleDraft.qualified?_append _ _ hmark hplain, ← hshows, if_pos hshown]

/-- A module with a method, and a function that refers to itself and to the method. -/
def methodFiles : List SourceFile :=
  [{ path := ⟨"m.lua"⟩, language := "lua", moduleCall := none,
     items := [bareItem "util" Kind.moduleId false, bareItem "Obj:get" Kind.functionId false,
       bareItem "open" Kind.functionId false ["util.open", "util.Obj:get"]] }]

/-- The method of `methodFiles` as it is shown. -/
def methodItem : Item :=
  bareItem "Obj:get" Kind.functionId false

/-- The function of `methodFiles` as it is shown. -/
def openItem : Item :=
  { bareItem "open" Kind.functionId false with
    see := [⟨"util.open", some (.toItem "util" "open")⟩, ⟨"util.Obj:get", none⟩] }

/-- The module of `methodFiles`. -/
def methodModule : Module :=
  ⟨"util", Kind.moduleId, [], [], {}, [⟨"m.lua"⟩],
    [⟨Kind.functionId, "Functions", some "Parameters", [methodItem, openItem]⟩]⟩

theorem assemble_methodFiles :
    assemble methodFiles .ofItems .ofModules {} =
      .ok ⟨none, [methodModule], [⟨Kind.moduleId, "Modules", ["util"]⟩]⟩ := rfl

/-- One of the two references leads to its item, the other one is cut inside the name of the
    method. -/
theorem assemble_qualified_reference_method :
    ∃ p, assemble methodFiles .ofItems .ofModules {} = .ok p ∧
      ∃ m ∈ p.modules, ∃ method ∈ m.items, ∃ opening ∈ m.items,
        ∃ r ∈ opening.see, r.text = m.name ++ '.' :: opening.name ∧
          r.target = some (.toItem m.name opening.name) ∧
        ∃ s ∈ opening.see, s.text = m.name ++ '.' :: method.name ∧ s.target = none := by
  have hm : methodModule ∈ [methodModule] := List.mem_cons_self
  have hmethod : methodItem ∈ methodModule.items := List.mem_cons_self
  have hopen : openItem ∈ methodModule.items := List.mem_cons_of_mem _ List.mem_cons_self
  have hplain : ⟨"util.open", some (.toItem "util" "open")⟩ ∈ openItem.see := List.mem_cons_self
  have hcut : ⟨"util.Obj:get", none⟩ ∈ openItem.see := List.mem_cons_of_mem _ List.mem_cons_self
  have hdot : Link.isSeparator '.' = true := rfl
  have hopenName : openItem.name.all (!Link.isSeparator ·) = true := rfl
  have hget : ("get" : Text).all (!Link.isSeparator ·) = true := rfl
  refine ⟨_, assemble_methodFiles, methodModule, hm, methodItem, hmethod, openItem, hopen, _, hplain,
    rfl, ?_, _, hcut, rfl, ?_⟩
  · exact (assemble_qualified_reference KindList.registered_ofItems assemble_methodFiles hm hopen hm
      hopen hplain hdot rfl (by decide) (by decide) (by decide)).1.mpr
      (by simpa only [List.all_eq_true, Bool.not_eq_true'] using hopenName)
  · exact (assemble_qualified_reference KindList.registered_ofItems assemble_methodFiles hm hmethod
      hm hopen hcut hdot rfl (by decide) (by decide) (by decide)).2 "Obj" ':' "get" rfl rfl
      (by simpa only [List.all_eq_true, Bool.not_eq_true'] using hget)

/-- The module shows the method, and a reference to it by its qualified name, which names nothing
    else, does not lead there. -/
theorem assemble_qualified_method_lost :
    ∃ p, assemble methodFiles .ofItems .ofModules {} = .ok p ∧
      ∃ m ∈ p.modules, ∃ i ∈ m.items, ∃ referring ∈ m.items, ∃ r ∈ referring.see,
        r.text = m.name ++ '.' :: i.name ∧ Link.isExternal r.text = false ∧
        (∀ other ∈ p.modules, ∀ item ∈ other.items, item.name ≠ r.text) ∧
        (∀ other ∈ p.modules, other.name ≠ r.text) ∧
        r.target ≠ some (.toItem m.name i.name) :=
  ⟨_, assemble_methodFiles, methodModule, List.mem_cons_self, methodItem, List.mem_cons_self,
    openItem, List.mem_cons_of_mem _ List.mem_cons_self, ⟨"util.Obj:get", none⟩,
    List.mem_cons_of_mem _ List.mem_cons_self, rfl, by decide, by decide, by decide, by decide⟩

end Project

end SourceDoc
