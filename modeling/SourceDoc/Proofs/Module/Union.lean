import SourceDoc.Proofs.Module.Ownership
import SourceDoc.Proofs.Tag.Names

namespace SourceDoc

namespace Text

/-- The first text that is not empty; empty if all are. -/
def firstFilled (ts : List Text) : Text :=
  (ts.find? (!·.isEmpty)).getD []

theorem firstFilled_singleton (t : Text) : firstFilled [t] = t := by
  cases t <;> rfl

/-- A text at the end is taken only if all before it are empty. So texts are merged, one module at a
    time. -/
theorem firstFilled_concat (ts : List Text) (t : Text) :
    firstFilled (ts ++ [t]) = orElse (firstFilled ts) t := by
  induction ts with
  | nil => exact firstFilled_singleton t
  | cons u ts ih =>
    cases u with
    | nil => exact ih
    | cons c cs => rfl

/-- Of several texts the first filled one is taken, however they are grouped. -/
theorem orElse_assoc (t u v : Text) : orElse (orElse t u) v = orElse t (orElse u v) := by
  cases t <;> rfl

end Text

theorem Path.same_eq_decide (p q : Path) : p.same q = decide (p.components = q.components) :=
  beq_eq_decide _ _

/-- The files among paths, each place once and spelled as it was first. -/
theorem Path.addNew_nil (ps : List Path) :
    Keyed.addNew Path.components [] ps = ps.eraseDupsBy Path.same :=
  Keyed.addNew_nil_eq_eraseDupsBy _ (fun p q => by rw [same_eq_decide, decide_eq_true_eq]) ps

namespace ModuleDraft

/-- Files are united by the components of their paths, so what is known of keyed lists holds for
    them. -/
theorem mergeFiles_eq_addNew (files more : List Path) :
    mergeFiles files more = Keyed.addNew Path.components files more := by
  simp only [mergeFiles, Keyed.addNew, Path.same_eq_decide]

/-- Each part of a module is united by an associative operation, and so are modules. -/
theorem absorb_assoc (a b c : ModuleDraft) : (a.absorb b).absorb c = a.absorb (b.absorb c) := by
  simp only [absorb, Text.orElse_assoc, TagTable.fillMissing_assoc, mergeFiles_eq_addNew,
    Keyed.addNew_addNew, List.append_assoc]

/-- Modules can be gathered in groups. -/
instance : Std.Associative absorb := ⟨absorb_assoc⟩

/-- The first module with all later ones absorbed; `none` if there is no module. -/
def gather : List ModuleDraft → Option ModuleDraft
  | [] => none
  | m :: ms => some (ms.foldl absorb m)

theorem gather_concat (ms : List ModuleDraft) (m : ModuleDraft) :
    gather (ms ++ [m]) = some ((gather ms).elim m (·.absorb m)) := by
  cases ms with
  | nil => rfl
  | cons first ms =>
    rw [List.cons_append, gather, List.foldl_append]
    rfl

/-- Modules may be gathered in two parts. -/
theorem gather_append (ms others : List ModuleDraft) :
    gather (ms ++ others) = gather ((gather ms).toList ++ (gather others).toList) := by
  cases ms with
  | nil => cases others <;> rfl
  | cons m ms =>
    cases others with
    | nil =>
      rw [List.append_nil]
      rfl
    | cons other others =>
      have hassoc : others.foldl absorb ((ms.foldl absorb m).absorb other) =
          (ms.foldl absorb m).absorb (others.foldl absorb other) := List.foldl_assoc
      rw [List.cons_append, gather, List.foldl_append, List.foldl_cons, hassoc]
      rfl

section Named

/-- The modules of a name, after a module of that name has been added. -/
theorem filter_mergeInto_self (m : ModuleDraft) (ms : List ModuleDraft) :
    (mergeInto m ms).filter (·.name = m.name) = mergeInto m (ms.filter (·.name = m.name)) :=
  Keyed.filter_key_upsert (by exact fun _ h => h) ms

theorem filter_mergeInto_of_ne {name : Text} {m : ModuleDraft} (hm : m.name ≠ name)
    (ms : List ModuleDraft) :
    (mergeInto m ms).filter (·.name = name) = ms.filter (·.name = name) :=
  Keyed.filter_upsert_of_not (fun _ h => decide_eq_false fun hname => hm (h.symm.trans hname))
    (by exact fun _ h => h) ms

theorem name_foldl_absorb (m : ModuleDraft) (ms : List ModuleDraft) :
    (ms.foldl absorb m).name = m.name := by
  induction ms generalizing m with
  | nil => rfl
  | cons other ms ih => exact ih (m.absorb other)

/-- Merging a module into the one of its name is gathering it with the modules that were merged. -/
theorem mergeInto_toList_gather {m : ModuleDraft} {ms : List ModuleDraft}
    (hms : ∀ other ∈ ms, other.name = m.name) :
    mergeInto m (gather ms).toList = (gather (ms ++ [m])).toList := by
  rw [gather_concat]
  cases ms with
  | nil => rfl
  | cons first ms =>
    have hname : (ms.foldl absorb first).name = m.name := by
      rw [name_foldl_absorb]
      exact hms first List.mem_cons_self
    rw [gather, Option.toList_some, mergeInto_cons, if_pos hname]
    rfl

/-- Of the merged modules, the one of a name is what the modules of that name become. -/
theorem filter_name_merge (name : Text) (ms : List ModuleDraft) :
    (merge ms).filter (·.name = name) = (gather (ms.filter (·.name = name))).toList := by
  induction ms using List.reverseRecOn with
  | nil => rfl
  | append_singleton ms m ih =>
    rw [merge_concat, List.filter_append]
    by_cases hname : m.name = name
    · subst hname
      have hone : [m].filter (·.name = m.name) = [m] := by simp
      rw [filter_mergeInto_self, ih, hone]
      exact mergeInto_toList_gather (by simp)
    · have hnone : [m].filter (·.name = name) = [] := by simp [hname]
      rw [filter_mergeInto_of_ne hname, ih, hnone, List.append_nil]

/-- Modules of distinct names are known from their names and from the module of each name. -/
theorem eq_of_filter_name_eq {ms others : List ModuleDraft} (hnodup : (ms.map (·.name)).Nodup)
    (hnames : ms.map (·.name) = others.map (·.name))
    (hfilter : ∀ name, ms.filter (·.name = name) = others.filter (·.name = name)) :
    ms = others := by
  have hself (ms : List ModuleDraft) (hnodup : (ms.map (·.name)).Nodup) :
      ms = (ms.map (·.name)).flatMap fun name => ms.filter (·.name = name) := by
    induction ms with
    | nil => rfl
    | cons m ms ih =>
      obtain ⟨hnew, hnodup⟩ := List.nodup_cons.mp hnodup
      have hnone : ms.filter (·.name = m.name) = [] := by
        rw [List.filter_eq_nil_iff]
        intro other hother hname
        exact hnew (List.mem_map.mpr ⟨other, hother, by simpa using hname⟩)
      have hrest : (ms.map (·.name)).flatMap (fun name => (m :: ms).filter (·.name = name)) =
          (ms.map (·.name)).flatMap fun name => ms.filter (·.name = name) := by
        apply List.flatMap_congr
        intro name hname
        have hne : m.name ≠ name := by
          rintro rfl
          exact hnew hname
        simp [hne]
      rw [List.map_cons, List.flatMap_cons, hrest, ← ih hnodup,
        List.filter_cons_of_pos (by simp), hnone]
      rfl
  rw [hself ms hnodup, hself others (hnames ▸ hnodup), hnames]
  simp only [hfilter]

end Named

/-- Modules may be merged in batches. -/
theorem merge_merge_append (ms others : List ModuleDraft) :
    merge (ms ++ others) = merge (merge ms ++ merge others) := by
  apply eq_of_filter_name_eq (nodup_names_merge _)
  · have hnames (names : List Text) : names.eraseDups = Keyed.addNew id [] names :=
      (Keyed.addNew_id_nil names).symm
    simp only [names_merge, List.map_append, hnames, Keyed.addNew_append]
    -- names that were made distinct before are added like the names they were made from
    rw [Keyed.addNew_addNew, Keyed.addNew_addNew]
    rfl
  · intro name
    rw [filter_name_merge, filter_name_merge, List.filter_append, List.filter_append,
      filter_name_merge, filter_name_merge, gather_append]

/-- The module that modules become. The first one decides on the kind; a text is the first one that
    is not empty, each on its own account; each tag has the value of the first module that has it;
    each file is listed once, where it is met first; and no item is lost. -/
structure IsUnion (merged : ModuleDraft) (ms : List ModuleDraft) : Prop where
  kind : ms.head?.map (·.kind) = some merged.kind
  summary : merged.summary = Text.firstFilled (ms.map (·.summary))
  description : merged.description = Text.firstFilled (ms.map (·.description))
  tagNames : merged.tags.names = (ms.flatMap (·.tags.names)).eraseDups
  tags : ∀ tag, merged.tags.get? tag = ms.findSome? (·.tags.get? tag)
  files : merged.files = (ms.flatMap (·.files)).eraseDupsBy Path.same
  items : merged.items = ms.flatMap (·.items)

/-- A module that repeats neither a tag nor a file is what it becomes on its own. -/
theorem isUnion_singleton {m : ModuleDraft} (htags : m.tags.names.Nodup)
    (hfiles : (m.files.map Path.components).Nodup) : m.IsUnion [m] where
  kind := rfl
  summary := (Text.firstFilled_singleton m.summary).symm
  description := (Text.firstFilled_singleton m.description).symm
  tagNames := by
    have hnames : Keyed.addNew id [] m.tags.names = m.tags.names :=
      Keyed.addNew_nil_of_nodup id (by rwa [List.map_id])
    rw [List.flatMap_singleton, ← Keyed.addNew_id_nil (κ := Text), hnames]
  tags tag := by
    rw [List.findSome?_singleton]
  files := by
    rw [List.flatMap_singleton, ← Path.addNew_nil, Keyed.addNew_nil_of_nodup _ hfiles]
  items := (List.flatMap_singleton _ m).symm

/-- One more module is absorbed by what the modules before it have become. -/
theorem IsUnion.absorb {merged : ModuleDraft} {ms : List ModuleDraft} (h : merged.IsUnion ms)
    (m : ModuleDraft) : (merged.absorb m).IsUnion (ms ++ [m]) where
  kind := by
    obtain ⟨first, hfirst, hkind⟩ := Option.map_eq_some_iff.mp h.kind
    rw [List.head?_append, hfirst]
    exact congrArg some hkind
  summary := by
    rw [List.map_append, List.map_singleton, Text.firstFilled_concat, ← h.summary]
    rfl
  description := by
    rw [List.map_append, List.map_singleton, Text.firstFilled_concat, ← h.description]
    rfl
  tagNames := by
    rw [List.flatMap_append, List.flatMap_singleton, ← Keyed.addNew_id_nil (κ := Text),
      Keyed.addNew_append, Keyed.addNew_id_nil, ← h.tagNames]
    exact TagTable.names_fillMissing merged.tags m.tags
  tags tag := by
    rw [List.findSome?_append, ← h.tags, List.findSome?_singleton]
    exact TagTable.get?_fillMissing merged.tags m.tags tag
  files := by
    rw [List.flatMap_append, List.flatMap_singleton, ← Path.addNew_nil, Keyed.addNew_append,
      Path.addNew_nil, ← h.files]
    exact mergeFiles_eq_addNew merged.files m.files
  items := by
    rw [List.flatMap_append, List.flatMap_singleton, ← h.items]
    rfl

/-- What modules become follows the rules of a union, if no tag or file is repeated in one of
    them. -/
theorem isUnion_of_gather {ms : List ModuleDraft}
    (hms : ∀ m ∈ ms, m.tags.names.Nodup ∧ (m.files.map Path.components).Nodup) {merged : ModuleDraft}
    (h : gather ms = some merged) : merged.IsUnion ms := by
  induction ms using List.reverseRecOn generalizing merged with
  | nil => cases h
  | append_singleton ms m ih =>
    rw [List.forall_mem_append, List.forall_mem_singleton] at hms
    rw [gather_concat] at h
    cases hgather : gather ms with
    | none =>
      have hnil : ms = [] := by
        cases ms with
        | nil => rfl
        | cons first ms => cases hgather
      rw [hgather] at h
      cases h
      rw [hnil]
      exact isUnion_singleton hms.2.1 hms.2.2
    | some earlier =>
      rw [hgather] at h
      cases h
      exact (ih hms.1 hgather).absorb m

/-- Modules that are found in some file, under whatever kinds and options. -/
def Discovered (m : ModuleDraft) : Prop :=
  ∃ (f : SourceFile) (kinds : KindList) (options : ProjectOptions), m ∈ f.discover kinds options

end ModuleDraft

namespace SourceFile

variable (f : SourceFile) (kinds : KindList) (options : ProjectOptions)

/-- A module takes over only tags it does not have, so the tags of the items are of no matter. -/
theorem nodup_tags_discover : ∀ m ∈ f.discover kinds options, m.tags.names.Nodup := by
  have habsorbed {m : ModuleDraft} (hm : m.tags.names.Nodup) (item : Item) :
      (m.absorbDoc item).tags.names.Nodup := TagTable.nodup_names_fillMissing hm item.tags
  have hnew : TagTable.names {} = [] := rfl
  refine forall_mem_discover ?_ ?_ ?_ ?_
  · exact hnew ▸ List.nodup_nil
  · exact fun item => habsorbed (hnew ▸ List.nodup_nil) item
  · exact fun m item hm => habsorbed hm item
  · exact fun m item hm => hm

/-- A module is found in one file, under the path of that file. -/
theorem files_discover : ∀ m ∈ f.discover kinds options, m.files = [f.path] :=
  forall_mem_discover rfl (fun _ => rfl) (fun _ _ hm => hm) (fun _ _ hm => hm)

end SourceFile

namespace ModuleDraft

/-- Modules found in files meet the conditions under which merging is a union. -/
theorem Discovered.nodup_tags_and_files {m : ModuleDraft} (hm : m.Discovered) :
    m.tags.names.Nodup ∧ (m.files.map Path.components).Nodup := by
  obtain ⟨f, kinds, options, hm⟩ := hm
  refine ⟨f.nodup_tags_discover kinds options m hm, ?_⟩
  rw [f.files_discover kinds options m hm]
  exact List.nodup_singleton _

/-- Merging modules found in files leaves one module for each name, where the name is first met, and
    that module is the union of all modules of its name. Whatever the modules are, merging them in
    batches makes no difference. -/
theorem merge_unites {ms : List ModuleDraft} (hms : ∀ m ∈ ms, m.Discovered) :
    (merge ms).map (·.name) = (ms.map (·.name)).eraseDups ∧
    (∀ merged ∈ merge ms, merged.IsUnion (ms.filter (·.name = merged.name))) ∧
    ∀ xs ys : List ModuleDraft, merge (xs ++ ys) = merge (merge xs ++ merge ys) := by
  refine ⟨names_merge ms, ?_, merge_merge_append⟩
  intro merged hmerged
  have hgather : merged ∈ (gather (ms.filter (·.name = merged.name))).toList := by
    rw [← filter_name_merge]
    exact List.mem_filter.mpr ⟨hmerged, by simp⟩
  refine isUnion_of_gather ?_ (Option.mem_toList.mp hgather)
  intro m hm
  exact (hms m (List.mem_filter.mp hm).1).nodup_tags_and_files

/-- A file whose one doc block opens a module. -/
def openingFile (path name summary : Text) (tags : TagTable) : SourceFile :=
  { path := ⟨path⟩, language := "lua", moduleCall := none,
    items := [{ name, kind := Kind.moduleId, summary, description := [], tags, line := 1,
                inferred := false, file := ⟨path⟩ }] }

/-- Two modules of one name from one file, which is spelled in two ways, and another module between
    them. -/
def utilDrafts : List ModuleDraft :=
  [openingFile "lib/a.lua" "util" [] ⟨[("author", .single "A")]⟩,
    openingFile "b.lua" "log" "Logging." {},
    openingFile "lib//a.lua" "util" "Tools." ⟨[("author", .single "B"), ("license", .single "L")]⟩]
  |>.flatMap (·.discover .ofModules {})

theorem merge_unites_util :
    (∀ m ∈ utilDrafts, m.Discovered) ∧
    (merge utilDrafts).map (·.name) = [("util" : Text), "log"] ∧
    ∃ merged ∈ merge utilDrafts, merged.summary = ("Tools." : Text) ∧
      merged.tags.first? "author" = some ("A" : Text) ∧
      merged.tags.names = [("author" : Text), "license"] ∧ merged.files = [⟨"lib/a.lua"⟩] := by
  have hms : ∀ m ∈ utilDrafts, m.Discovered := by
    intro m hm
    obtain ⟨f, -, hm⟩ := List.mem_flatMap.mp hm
    exact ⟨f, _, _, hm⟩
  obtain ⟨hnames, hunion, -⟩ := merge_unites hms
  obtain ⟨merged, hmerged, hname⟩ : ∃ merged ∈ merge utilDrafts, merged.name = ("util" : Text) :=
    ⟨_, List.mem_cons_self, rfl⟩
  have hmergedUnion := hunion merged hmerged
  rw [hname] at hmergedUnion
  refine ⟨hms, ?_, merged, hmerged, ?_, ?_, ?_, ?_⟩
  · rw [hnames]
    decide
  · rw [hmergedUnion.summary]
    decide
  · rw [TagTable.first?, hmergedUnion.tags]
    decide
  · rw [hmergedUnion.tagNames]
    decide
  · rw [hmergedUnion.files]
    decide

end ModuleDraft

end SourceDoc
