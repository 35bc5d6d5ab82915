import SourceDoc.Proofs.Project.Placement

namespace SourceDoc

/-- Whether an event reports a reference without a target. -/
def Event.isUnresolvedReference : Event → Bool
  | .unresolvedReference .. => true
  | _ => false

namespace ModuleDraft

theorem hasItem_iff (m : ModuleDraft) (name : Text) :
    m.hasItem name = true ↔ ∃ item ∈ m.items, item.name = name := by
  simp [hasItem]

theorem defines_iff (ms : List ModuleDraft) (module name : Text) :
    defines ms module name = true ↔
      ∃ m ∈ ms, m.name = module ∧ ∃ item ∈ m.items, item.name = name := by
  simp [defines, hasItem_iff]

/-- Where a link leads among modules: to the module it names, and to an item there if it names
    one. -/
def Leads (ms : List ModuleDraft) (link : Link) : Prop :=
  ∃ m ∈ ms, m.name = link.module ∧
    ∀ name, link.item = some name → ∃ item ∈ m.items, item.name = name

theorem leads_toItem {ms : List ModuleDraft} {module name : Text}
    (hdefines : defines ms module name = true) : Leads ms (.toItem module name) := by
  obtain ⟨m, hm, hname, hitem⟩ := (defines_iff ms module name).mp hdefines
  refine ⟨m, hm, hname, ?_⟩
  intro other hother
  cases hother
  exact hitem

/-- A qualified name is linked only to what is there, and its address says the same as its parts. -/
theorem leads_of_qualified? {ms : List ModuleDraft} {t : Text} {link : Link}
    (hlink : qualified? ms t = some link) :
    Leads ms link ∧ link.href = Link.address link.module link.item := by
  unfold qualified? at hlink
  split at hlink
  · split at hlink
    · rename_i hdefines
      cases hlink
      exact ⟨leads_toItem hdefines, rfl⟩
    · cases hlink
  · cases hlink

/-- A target is found for no link that is one already, and it leads to what is shown. -/
theorem leads_of_target? {ms : List ModuleDraft} {current t : Text} {link : Link}
    (hlink : target? ms current t = some link) :
    Link.isExternal t = false ∧ Leads ms link ∧
      link.href = Link.address link.module link.item := by
  unfold target? at hlink
  split at hlink
  · cases hlink
  · rename_i hexternal
    refine ⟨by simpa using hexternal, ?_⟩
    split at hlink
    · -- an item of the module itself
      rename_i hdefines
      cases hlink
      exact ⟨leads_toItem hdefines, rfl⟩
    · split at hlink
      · -- an item of the first module that has one of this name
        rename_i m hfound
        cases hlink
        have hm := List.mem_of_find?_eq_some hfound
        have hitem := List.find?_some hfound
        exact ⟨leads_toItem ((defines_iff ms m.name t).mpr ⟨m, hm, rfl, (hasItem_iff m t).mp hitem⟩),
          rfl⟩
      · split at hlink
        · -- a module
          rename_i hmodule
          cases hlink
          obtain ⟨m, hm, hname⟩ : ∃ m ∈ ms, m.name = t := by simpa using hmodule
          exact ⟨⟨m, hm, hname, fun _ hitem => by cases hitem⟩, rfl⟩
        · exact leads_of_qualified? hlink

/-- An item of the module a reference is made in goes before every other target. -/
theorem target?_of_own {ms : List ModuleDraft} {current t : Text}
    (hexternal : Link.isExternal t = false) (hown : defines ms current t = true) :
    target? ms current t = some (.toItem current t) := by
  simp [target?, hexternal, hown]

/-- Linking reports nothing else than references without a target. -/
theorem isUnresolvedReference_of_mem_linkEvents {ms : List ModuleDraft} {e : Event}
    (he : e ∈ linkEvents ms) : e.isUnresolvedReference = true := by
  obtain ⟨m, -, he⟩ := List.mem_flatMap.mp he
  obtain ⟨item, -, he⟩ := List.mem_flatMap.mp he
  obtain ⟨r, -, he⟩ := List.mem_filterMap.mp he
  split at he
  · cases he
    rfl
  · cases he

theorem isUnresolvedReference_of_mem_mergeEvents {seen ms : List ModuleDraft} {e : Event}
    (he : e ∈ mergeEvents seen ms) : e.isUnresolvedReference = false := by
  induction ms generalizing seen with
  | nil => cases he
  | cons m ms ih =>
    rcases List.mem_append.mp he with he | he
    · unfold mergeIntoEvents at he
      split at he
      · cases he
      · rcases List.mem_cons.mp he with rfl | he
        · rfl
        · split at he
          · cases he
          · rw [List.mem_singleton] at he
            subst he
            rfl
    · exact ih he

end ModuleDraft

theorem SourceFile.isUnresolvedReference_of_mem_inferredNameEvents {f : SourceFile}
    {options : ProjectOptions} {e : Event} (he : e ∈ f.inferredNameEvents options) :
    e.isUnresolvedReference = false := by
  unfold inferredNameEvents at he
  split at he
  · cases he
  · unfold ModuleName.events at he
    split at he
    · cases he
    · split at he
      · cases he
      · rw [List.mem_singleton] at he
        subst he
        rfl

/-- Finding the modules of a file reports no reference, either. -/
theorem SourceFile.isUnresolvedReference_of_mem_discoverEvents {f : SourceFile} {kinds : KindList}
    {options : ProjectOptions} {e : Event} (he : e ∈ f.discoverEvents kinds options) :
    e.isUnresolvedReference = false := by
  have hopenings : ∀ items : List Item,
      e ∈ items.flatMap (fun _ => f.inferredNameEvents options) →
        e.isUnresolvedReference = false := by
    intro items hmem
    obtain ⟨_, -, hmem⟩ := List.mem_flatMap.mp hmem
    exact isUnresolvedReference_of_mem_inferredNameEvents hmem
  unfold discoverEvents at he
  dsimp only at he
  split at he
  · cases he
  · split at he
    · exact hopenings _ he
    · rcases List.mem_append.mp he with he | he
      · exact isUnresolvedReference_of_mem_inferredNameEvents he
      · rcases List.mem_cons.mp he with rfl | he
        · rfl
        · exact hopenings _ he

namespace Project

/-- The references that a project leaves without a target although they are no links already, as
    events. -/
def unresolved (p : Project) : List Event :=
  p.modules.flatMap fun m => m.items.flatMap fun item => item.see.filterMap fun r =>
    if r.target.isNone && !Link.isExternal r.text then
      some (.unresolvedReference item.file item.line r.text)
    else none

/-- A module as a project shows it: its references linked among all modules, its items grouped. -/
def linkedModule (itemKinds : KindList) (ms : List ModuleDraft) (m : ModuleDraft) : Module :=
  Module.grouped itemKinds { m with items := m.items.map (ModuleDraft.linkItem ms m.name) }

variable {files : List SourceFile} {itemKinds moduleKinds : KindList} {options : ProjectOptions}
  {ms : List ModuleDraft}

theorem linked_eq_map : linked itemKinds ms = ms.map (linkedModule itemKinds ms) := by
  rw [linked, ModuleDraft.linkAll, List.map_map]
  rfl

/-- Items whose kinds are registered are all shown, linked and put in another order. -/
theorem items_linkedModule_perm (hkinds : itemKinds.Registered) (ms : List ModuleDraft)
    {m : ModuleDraft} (hitems : ∀ item ∈ m.items, itemKinds.contains item.kind = true) :
    (linkedModule itemKinds ms m).items.Perm (m.items.map (ModuleDraft.linkItem ms m.name)) := by
  rw [linkedModule, Module.items_grouped]
  apply KindList.flatMap_groups_perm hkinds
  simpa [ModuleDraft.linkItem] using hitems

/-- An item that is shown is a linked one of the module, and all of these are shown. -/
theorem mem_items_linkedModule (hkinds : itemKinds.Registered) {m : ModuleDraft}
    (hitems : ∀ item ∈ m.items, itemKinds.contains item.kind = true) {shownItem : Item} :
    shownItem ∈ (linkedModule itemKinds ms m).items ↔
      ∃ item ∈ m.items, ModuleDraft.linkItem ms m.name item = shownItem := by
  rw [(items_linkedModule_perm hkinds ms hitems).mem_iff, List.mem_map]

/-- What a project shows is not hidden. -/
theorem hides_of_mem_shown {m : ModuleDraft} (hm : m ∈ shown files moduleKinds options)
    {item : Item} (hitem : item ∈ m.items) : options.hides item = false := by
  rw [shown_eq_map_filter] at hm
  obtain ⟨merged, -, rfl⟩ := List.mem_map.mp hm
  simpa using (List.mem_filter.mp hitem).2

/-- Linking an item reports the references of the linked item that have no target. -/
theorem linkItemEvents_eq (current : Text) (item : Item) :
    ModuleDraft.linkItemEvents ms current item =
      (ModuleDraft.linkItem ms current item).see.filterMap fun r =>
        if r.target.isNone && !Link.isExternal r.text then
          some (.unresolvedReference item.file item.line r.text)
        else none := by
  rw [ModuleDraft.linkItem, List.filterMap_map]
  rfl

/-- What linking reports is what the project leaves without a target, each reference once and in
    another order. -/
theorem linkEvents_perm_unresolved (hkinds : itemKinds.Registered)
    (hitems : ∀ m ∈ ms, ∀ item ∈ m.items, itemKinds.contains item.kind = true)
    (title : Option Text) (index : List IndexSection) :
    (ModuleDraft.linkEvents ms).Perm (unresolved ⟨title, linked itemKinds ms, index⟩) := by
  unfold ModuleDraft.linkEvents unresolved
  rw [linked_eq_map, List.flatMap_map]
  apply List.Perm.flatMap_left
  intro m hm
  have hperm := items_linkedModule_perm hkinds ms (hitems m hm)
  refine List.Perm.trans ?_ (hperm.flatMap_right _).symm
  rw [List.flatMap_map]
  apply List.Perm.of_eq
  apply List.flatMap_congr
  intro item _
  exact linkItemEvents_eq m.name item

/-- Of what assembling reports, the references without a target are what linking reports. -/
theorem filter_assembleEvents :
    (assembleEvents files moduleKinds options).filter Event.isUnresolvedReference =
      ModuleDraft.linkEvents (shown files moduleKinds options) := by
  have hdiscover : (files.flatMap (·.discoverEvents moduleKinds options)).filter
      Event.isUnresolvedReference = [] := by
    rw [List.filter_eq_nil_iff]
    intro e he
    obtain ⟨f, -, he⟩ := List.mem_flatMap.mp he
    simp [SourceFile.isUnresolvedReference_of_mem_discoverEvents he]
  have hmerge : (ModuleDraft.mergeEvents [] (declared files moduleKinds options)).filter
      Event.isUnresolvedReference = [] := by
    rw [List.filter_eq_nil_iff]
    intro e he
    simp [ModuleDraft.isUnresolvedReference_of_mem_mergeEvents he]
  have hlink : (ModuleDraft.linkEvents (shown files moduleKinds options)).filter
      Event.isUnresolvedReference = ModuleDraft.linkEvents (shown files moduleKinds options) := by
    rw [List.filter_eq_self]
    intro e he
    exact ModuleDraft.isUnresolvedReference_of_mem_linkEvents he
  rw [assembleEvents, List.filter_append, List.filter_append, hdiscover, hmerge, hlink]
  rfl

/-- Links never dangle. A link leads to a module of the project and, if it names an item, to one
    that is shown there, under the address of that place; it is never made for a reference that is a
    link already. A reference to an item of its own module leads there. Each reference that is
    neither linked nor a link already is reported once, and nothing else is reported so. -/
theorem assemble_links_lead (hkinds : itemKinds.Registered) {p : Project}
    (hp : assemble files itemKinds moduleKinds options = .ok p) :
    (∀ m ∈ p.modules, ∀ item ∈ m.items, ∀ r ∈ item.see,
      (∀ link, r.target = some link →
        Link.isExternal r.text = false ∧
        link.href = Link.address link.module link.item ∧
        ∃ target ∈ p.modules, target.name = link.module ∧
          ∀ name, link.item = some name →
            ∃ found ∈ target.items, found.name = name ∧ options.hides found = false) ∧
      (Link.isExternal r.text = false → (∃ own ∈ m.items, own.name = r.text) →
        r.target = some (.toItem m.name r.text))) ∧
    ((assembleEvents files moduleKinds options).filter Event.isUnresolvedReference).Perm
      p.unresolved := by
  obtain ⟨hitems, -, rfl⟩ := assemble_eq_ok_iff.mp hp
  refine ⟨?_, ?_⟩
  · intro m hm item hitem r hr
    dsimp only at hm ⊢
    rw [linked_eq_map] at hm ⊢
    obtain ⟨draft, hdraft, rfl⟩ := List.mem_map.mp hm
    obtain ⟨source, hsource, rfl⟩ :=
      (mem_items_linkedModule hkinds (hitems draft hdraft)).mp hitem
    obtain ⟨reference, -, rfl⟩ := List.mem_map.mp hr
    refine ⟨?_, ?_⟩
    · intro link hlink
      obtain ⟨hexternal, ⟨target, htarget, hname, hnamed⟩, hhref⟩ :=
        ModuleDraft.leads_of_target? hlink
      refine ⟨hexternal, hhref, linkedModule itemKinds _ target, List.mem_map_of_mem htarget,
        hname, ?_⟩
      intro name hlinkItem
      obtain ⟨found, hfound, hfoundName⟩ := hnamed name hlinkItem
      have hhides : options.hides found = false := hides_of_mem_shown htarget hfound
      exact ⟨_, (mem_items_linkedModule hkinds (hitems target htarget)).mpr ⟨found, hfound, rfl⟩,
        hfoundName, hhides⟩
    · rintro hexternal ⟨own, hown, hownName⟩
      obtain ⟨found, hfound, rfl⟩ :=
        (mem_items_linkedModule hkinds (hitems draft hdraft)).mp hown
      exact ModuleDraft.target?_of_own hexternal
        ((ModuleDraft.defines_iff _ _ _).mpr ⟨draft, hdraft, rfl, found, hfound, hownName⟩)
  · rw [filter_assembleEvents]
    exact linkEvents_perm_unresolved hkinds hitems options.title _

theorem assemble_links_lead_util :
    ∃ p, assemble utilFiles .ofItems .ofModules {} = .ok p ∧
      p.unresolved = [.unresolvedReference ⟨"m.lua"⟩ 1 "helper"] ∧
      ∃ m ∈ p.modules, ∃ item ∈ m.items, ∃ r ∈ item.see, ∃ link, r.target = some link ∧
        ∃ target ∈ p.modules, target.name = link.module := by
  obtain ⟨p, hp, hlinked⟩ : ∃ p, assemble utilFiles .ofItems .ofModules {} = .ok p ∧
      ∃ m ∈ p.modules, ∃ item ∈ m.items, ∃ r ∈ item.see, ∃ link, r.target = some link :=
    ⟨_, rfl, _, List.mem_cons_self, _, List.mem_cons_self, _, List.mem_cons_self, _, rfl⟩
  obtain ⟨hlinks, hevents⟩ := assemble_links_lead KindList.registered_ofItems hp
  obtain ⟨m, hm, item, hitem, r, hr, link, hlink⟩ := hlinked
  obtain ⟨-, -, target, htarget, hname, -⟩ := (hlinks m hm item hitem r hr).1 link hlink
  have hreported : (assembleEvents utilFiles .ofModules {}).filter Event.isUnresolvedReference =
      [.unresolvedReference ⟨"m.lua"⟩ 1 "helper"] := by decide
  rw [hreported] at hevents
  exact ⟨p, hp, List.perm_singleton.mp hevents.symm, m, hm, item, hitem, r, hr, link, hlink,
    target, htarget, hname⟩

end Project

end SourceDoc
