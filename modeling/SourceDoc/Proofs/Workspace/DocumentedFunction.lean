import SourceDoc.Proofs.DocBlock.Written
import SourceDoc.Proofs.Item.Params
import SourceDoc.Proofs.Tag.Written
import SourceDoc.Proofs.Workspace.Runs

namespace SourceDoc

/-- A function of Lua as its author sees it. The summary is one sentence on one line, and each
    parameter has a description on one line, which may be empty. -/
structure DocumentedFunction where
  isLocal : Bool
  name : Lua.DottedName
  /-- Names and descriptions of the parameters, in the order of the declaration. -/
  params : List (Text × Text)
  summary : Text
  isIdent_params : ∀ p ∈ params, Text.isIdent p.1 = true
  nodup_params : (params.map (·.1)).Nodup
  line_descriptions : ∀ p ∈ params, '\n' ∉ p.2 ∧ Text.trim p.2 = p.2
  line_summary : '\n' ∉ summary ∧ Text.trim summary = summary
  plain_summary : TagLine.isTagLine summary = false
  sentence_summary : ∀ before mark blank after, summary = before ++ mark :: blank :: after →
    mark = '.' ∨ mark = '?' → Text.isBlank blank = false

namespace DocumentedFunction

/-- What declares the function. -/
def head (f : DocumentedFunction) : Lua.FunctionHead where
  isLocal := f.isLocal
  name := f.name
  params := f.params.map (·.1)
  isIdent_params := by
    intro p hp
    obtain ⟨param, hparam, rfl⟩ := List.mem_map.mp hp
    exact f.isIdent_params param hparam

/-- The source of the function: its summary, a line for each parameter that is documented, in any
    order, and the declaration with an empty body. Blanks may follow. -/
def source (f : DocumentedFunction) (documented : List (Text × Text)) (ending : Text) : Text :=
  Text.join "\n" (("--- " ++ f.summary) ::
    (documented.map (fun p => "-- @param " ++ (p.1 ++ ' ' :: p.2)) ++ [f.head.text ++ " end"]))
    ++ ending

/-- A parameter as an item has it. -/
def paramOf (p : Text × Text) : Param :=
  ⟨p.1, none, p.2⟩

/-- The tag that documents a parameter. -/
def tagOf (p : Text × Text) : Text × Text :=
  ("param", p.1 ++ ' ' :: p.2)

variable {f : DocumentedFunction} {documented : List (Text × Text)} {ending : Text}

/-- What follows the dashes on the comment lines of the source. -/
def contents (f : DocumentedFunction) (documented : List (Text × Text)) : List Text :=
  ("- " ++ f.summary) :: documented.map fun p => ' ' :: TagLine.written (tagOf p)

/-- The source consists of comment lines, the declaration and its end. -/
theorem source_eq (f : DocumentedFunction) (documented : List (Text × Text)) (ending : Text) :
    f.source documented ending =
      Lua.commentLines (f.contents documented) ++ (f.head.text ++ (" end" ++ ending)) := by
  rw [source, ← List.cons_append, Text.join_concat]
  simp [Lua.commentLines, contents, tagOf, TagLine.written, List.flatMap_map]

theorem isNamed_tagOf (p : Text × Text) : TagLine.IsNamed (tagOf p) := by
  have hword : ("param" : Text).all Text.isWordChar = true := by decide +kernel
  exact ⟨List.cons_ne_nil _ _, List.all_eq_true.mp hword⟩

/-- A description that is trimmed leaves no carriage return at the end of its line. -/
theorem getLast?_written_tagOf {p : Text × Text} (h : Text.trim p.2 = p.2) :
    (TagLine.written (tagOf p)).getLast? ≠ some '\r' := by
  have hwritten : TagLine.written (tagOf p) = ("@param " ++ p.1) ++ ' ' :: p.2 := by
    simp [TagLine.written, tagOf]
  rw [hwritten, List.getLast?_append_of_ne_nil _ (List.cons_ne_nil _ _)]
  cases hp : p.2 with
  | nil => simp
  | cons c cs =>
    rw [List.getLast?_cons_cons, ← hp]
    intro hlast
    exact absurd ((Text.trim_eq_self_iff.mp h).2 '\r' hlast) (by decide)

/-- Summary and tags each fit on a line, in whatever order the parameters are documented. -/
theorem onLines (hdocumented : documented.Perm f.params) :
    DocText.OnLines f.summary (documented.map tagOf) where
  oneLine := f.line_summary.1
  trimmed := f.line_summary.2
  plain := f.plain_summary
  named := by
    intro entry hentry
    obtain ⟨p, -, rfl⟩ := List.mem_map.mp hentry
    exact isNamed_tagOf p
  lines := by
    intro entry hentry
    obtain ⟨p, hp, rfl⟩ := List.mem_map.mp hentry
    have hmem := hdocumented.subset hp
    obtain ⟨hfeed, htrim⟩ := f.line_descriptions p hmem
    have hname : '\n' ∉ p.1 := by
      intro hname
      exact absurd (Text.isIdentChar_of_mem (f.isIdent_params p hmem) hname) (by decide)
    exact ⟨by simp [TagLine.written, tagOf, hfeed, hname], getLast?_written_tagOf htrim⟩

/-- The tags of the function's documentation. -/
def tags (documented : List (Text × Text)) : TagTable :=
  TagTable.insertAll {} (documented.map fun p => ("param", Text.trim (p.1 ++ ' ' :: p.2)))

/-- What the documentation says. -/
def doc (f : DocumentedFunction) (documented : List (Text × Text)) : DocText :=
  { summary := f.summary, tags := tags documented }

/-- The text of the comments is read as the summary and the tags, with nothing to report. -/
theorem read_textOf (hdocumented : documented.Perm f.params) :
    DocText.read .standard (DocText.textOf f.summary (documented.map tagOf)) =
        f.doc documented ∧
      DocText.readEvents .standard (DocText.textOf f.summary (documented.map tagOf)) = [] := by
  have hparam : ∀ entry ∈ documented.map tagOf, entry.1 = "param" := by
    intro entry hentry
    obtain ⟨p, -, rfl⟩ := List.mem_map.mp hentry
    rfl
  have hcanonical : ∀ entry ∈ documented.map tagOf,
      TagRules.standard.canonical entry.1 = entry.1 := by
    intro entry hentry
    rw [hparam entry hentry]
    rfl
  have hrules : ∀ entry ∈ documented.map tagOf, TagRules.standard.rule? entry.1 = some {} := by
    intro entry hentry
    rw [hparam entry hentry]
    rfl
  have hread := (onLines hdocumented).read_textOf
    (DocText.cutSentence?_eq_none_iff.mpr f.sentence_summary) hcanonical hrules
  rw [List.map_map] at hread
  exact hread

theorem get?_tags {key : Text} (hkey : key ≠ "param") : (tags documented).get? key = none := by
  refine TagTable.get?_insertAll_of_ne {} ?_
  intro entry hentry
  obtain ⟨p, -, rfl⟩ := List.mem_map.mp hentry
  exact hkey.symm

theorem first?_tags {key : Text} (hkey : key ≠ "param") : (tags documented).first? key = none := by
  rw [TagTable.first?, get?_tags hkey]
  rfl

theorem values_tags_of_ne {key : Text} (hkey : key ≠ "param") :
    (tags documented).values key = [] := by
  rw [TagTable.values, get?_tags hkey]
  rfl

/-- The tag for parameters has one value for each parameter that is documented. -/
theorem values_tags : (tags documented).values "param" =
    documented.map fun p => Text.trim (p.1 ++ ' ' :: p.2) := by
  rw [tags, TagTable.values_insertAll, List.filter_eq_self.mpr]
  · rw [List.map_map]
    rfl
  · intro entry hentry
    obtain ⟨p, -, rfl⟩ := List.mem_map.mp hentry
    exact decide_eq_true rfl

/-- The values of the tag are read as the parameters, in the order they are documented in. -/
theorem ofTags_tags (hdocumented : documented.Perm f.params) :
    Param.ofTags (tags documented) "param" "tparam" = documented.map paramOf := by
  have htyped : (tags documented).values "tparam" = [] := values_tags_of_ne (by decide)
  have hnamed : ∀ p ∈ documented,
      Param.named? none (Text.trim (p.1 ++ ' ' :: p.2)) = some (paramOf p) := by
    intro p hp
    have hmem := hdocumented.subset hp
    have hident := f.isIdent_params p hmem
    refine Param.named?_trim ?_ ?_ (f.line_descriptions p hmem).2
    · intro hnil
      rw [hnil] at hident
      cases hident
    · intro c hc
      exact Text.isBlank_of_isIdentChar (Text.isIdentChar_of_mem hident hc)
  rw [Param.ofTags, values_tags, htyped, List.filterMap_nil, List.append_nil, List.filterMap_map]
  exact (List.filterMap_congr hnamed).trans (congrFun List.filterMap_eq_map documented)

/-- The function's parameters in the order of its declaration, and none is left over. -/
theorem ordered_tags (hdocumented : documented.Perm f.params) :
    Param.ordered f.head.params (Param.ofTags (tags documented) "param" "tparam") =
        f.params.map paramOf ∧
      Param.undeclared f.head.params (Param.ofTags (tags documented) "param" "tparam") = [] := by
  have hnames : f.head.params = (f.params.map paramOf).map (·.name) := by
    rw [List.map_map]
    rfl
  obtain ⟨hdeclared, hundeclared⟩ := Param.declared_of_perm (hdocumented.map paramOf)
    (hnames ▸ f.nodup_params)
  rw [ofTags_tags hdocumented, Param.ordered, hnames, hdeclared, hundeclared, List.append_nil]
  exact ⟨rfl, rfl⟩

/-- The declaration that is read. -/
def declaration (f : DocumentedFunction) : Declaration :=
  ⟨f.name.text, .function f.head.params, f.isLocal⟩

/-- The item the function becomes. -/
def item (f : DocumentedFunction) (documented : List (Text × Text)) (path : Path) : Item where
  name := f.name.text
  kind := if f.isLocal then Kind.localFunctionId else Kind.functionId
  summary := f.summary
  description := []
  params := f.params.map paramOf
  tags := tags documented
  line := 1
  inferred := true
  file := path

theorem kind?_doc : Item.kind? (f.doc documented) (some f.declaration) =
    some (Kind.functionId, true) := by
  have hclass : (f.doc documented).tags.first? "class" = none := first?_tags (by decide)
  rw [Item.kind?, hclass]
  rfl

theorem name?_doc : Item.name? (f.doc documented) (some f.declaration) =
    some (f.name.text, true) := by
  have hname : (f.doc documented).tags.first? "name" = none := first?_tags (by decide)
  rw [Item.name?, hname]
  simp [declaration, f.name.text_ne_nil]

/-- All tags are kept with the item. -/
theorem otherTags_doc : Item.otherTags (f.doc documented) = tags documented := by
  have hclass : (f.doc documented).tags.erase "class" = tags documented :=
    TagTable.erase_of_get?_eq_none (get?_tags (by decide))
  rw [Item.otherTags, hclass, TagTable.erase_of_get?_eq_none (get?_tags (by decide))]

/-- The item is a local function if it is declared as one. -/
theorem finalKind_tags : Item.finalKind Kind.functionId (tags documented) (some f.declaration) =
    if f.isLocal then Kind.localFunctionId else Kind.functionId := by
  have hlocal : (tags documented).contains "local" = false := by
    rw [TagTable.contains, get?_tags (by decide)]
    rfl
  rw [Item.finalKind, hlocal]
  simp [declaration]

/-- The documentation and the declaration make up the item, with nothing to report. -/
theorem build?_doc (hdocumented : documented.Perm f.params) (path : Path) :
    Item.build? (f.doc documented) (some f.declaration) path 1 = some (f.item documented path) ∧
      Item.buildEvents (f.doc documented) (some f.declaration) path 1 = [] := by
  obtain ⟨hordered, hundeclared⟩ := ordered_tags hdocumented
  have hparams : Item.paramsOf (tags documented) (some f.declaration) = f.params.map paramOf :=
    hordered
  have hreturns : Item.returnsOf (tags documented) = [] := by
    rw [Item.returnsOf, values_tags_of_ne (by decide), values_tags_of_ne (by decide)]
    rfl
  have hfields : Param.ofTags (tags documented) "field" "tfield" = [] := by
    rw [Param.ofTags, values_tags_of_ne (by decide), values_tags_of_ne (by decide)]
    rfl
  have hsee : Item.referencesOf (tags documented) = [] := by
    rw [Item.referencesOf, values_tags_of_ne (by decide)]
    rfl
  have husage : (tags documented).values "usage" = [] := values_tags_of_ne (by decide)
  have hraise : (tags documented).values "raise" = [] := values_tags_of_ne (by decide)
  refine ⟨?_, ?_⟩
  · simp only [Item.build?, kind?_doc, name?_doc, Option.bind_eq_bind, Option.bind_some,
      otherTags_doc, finalKind_tags, hparams, hreturns, hfields, hsee, husage, hraise]
    rfl
  · simp only [Item.buildEvents, kind?_doc, name?_doc, otherTags_doc]
    change (Param.undeclared f.head.params _).map _ = []
    rw [hundeclared]
    rfl

/-- The source is one block: the comment lines with the function after them. -/
theorem scan_source (hdocumented : documented.Perm f.params)
    (hending : ending.all Text.isBlank = true)
    (hlimit : ((Lua.tokens f.head.text).filter Token.isCode).length ≤ DocBlock.declarationLimit)
    (path : Path) :
    ∃ block, DocBlock.scan .lua path (f.source documented ending) = .ok [block] ∧
      block.text = DocText.textOf f.summary (documented.map tagOf) ∧ block.line = 1 ∧
      block.declaration = some f.declaration := by
  have hopening : Lua.isDoc ('-' :: '-' :: ("- " ++ f.summary)) = true := rfl
  have hplain : ∀ content ∈ documented.map fun p => ' ' :: TagLine.written (tagOf p),
      Lua.isDoc ('-' :: '-' :: content) = false := by
    intro content hcontent
    obtain ⟨p, -, rfl⟩ := List.mem_map.mp hcontent
    rfl
  have hlines : ∀ content ∈ f.contents documented,
      '\n' ∉ content ∧ content.head? ≠ some '[' := by
    refine List.forall_mem_cons.mpr ⟨⟨by simpa using f.line_summary.1, by simp⟩, ?_⟩
    intro content hcontent
    obtain ⟨p, hp, rfl⟩ := List.mem_map.mp hcontent
    have hfeed := ((onLines hdocumented).lines _ (List.mem_map_of_mem hp)).1
    exact ⟨by simpa using hfeed, by simp⟩
  have hbodies : (f.contents documented).map (fun content => Lua.body ('-' :: '-' :: content)) =
      f.summary :: (documented.map tagOf).map TagLine.written := by
    rw [contents, List.map_cons, List.map_map, List.map_map]
    rfl
  obtain ⟨endLine, hscan⟩ :=
    DocBlock.scan_function f.head hopening hplain hlines hending hlimit path
  rw [source_eq, DocText.textOf, ← hbodies]
  exact ⟨_, hscan, rfl, rfl, rfl⟩

end DocumentedFunction

namespace Workspace

open DocumentedFunction

variable {f : DocumentedFunction} {documented : List (Text × Text)}

/-- The block of a documented function becomes its item, with nothing to report. -/
theorem itemOfBlock?_documented (hdocumented : documented.Perm f.params) (path : Path)
    {block : DocBlock} (htext : block.text = DocText.textOf f.summary (documented.map tagOf))
    (hline : block.line = 1) (hdeclaration : block.declaration = some f.declaration) :
    ({} : Workspace).itemOfBlock? path block = some (f.item documented path) ∧
      ({} : Workspace).itemOfBlockEvents path block = [] := by
  obtain ⟨hread, hreadEvents⟩ := read_textOf hdocumented
  obtain ⟨hbuild, hbuildEvents⟩ := build?_doc hdocumented path
  have hrules : ({} : Workspace).rules = .standard := rfl
  have hopened : ({} : Workspace).openedKind? (f.doc documented) = none := by
    have hclass : (f.doc documented).tags.first? "class" = none := first?_tags (by decide)
    rw [openedKind?, hclass]
    rfl
  have hfile : documentsFile block (f.doc documented) = false := by
    rw [documentsFile, hdeclaration]
    simp
  refine ⟨?_, ?_⟩
  · rw [itemOfBlock?, htext, hrules, hread, hdeclaration, hline]
    simp only [hopened, hfile]
    exact hbuild
  · rw [itemOfBlockEvents, htext, hrules, hread, hreadEvents, hdeclaration, hline]
    simp only [hopened, hfile]
    exact hbuildEvents

/-- A documented function is read back from its source: scanning it into a new workspace gives one
    item that has the written name, summary and parameters, however the lines that document the
    parameters are ordered, and nothing is warned of. The search for a declaration must be able to
    read the declaration's tokens. -/
theorem addFile_documentedFunction (f : DocumentedFunction) {documented : List (Text × Text)}
    (hdocumented : documented.Perm f.params) {ending : Text}
    (hending : ending.all Text.isBlank = true) {path : Path}
    (hpath : path.extension? = some ("lua" : Text))
    (hlimit : ((Lua.tokens f.head.text).filter Token.isCode).length ≤ 256) :
    ∃ file item,
      ({} : Workspace).addFile path (f.source documented ending) = .ok { files := [file] } ∧
      file.items = [item] ∧ item.name = f.name.text ∧
      item.kind = (if f.isLocal then Kind.localFunctionId else Kind.functionId) ∧
      item.summary = f.summary ∧ item.description = [] ∧
      item.params = f.params.map (fun p => ⟨p.1, none, p.2⟩) ∧
      item.line = 1 ∧ item.inferred = true ∧
      ∀ e ∈ ({} : Workspace).scanFileEvents path (f.source documented ending), e.level ≠ .warn := by
  obtain ⟨block, hscan, htext, hline, hdeclaration⟩ :=
    scan_source hdocumented hending hlimit path
  have hblock := itemOfBlock?_documented hdocumented path htext hline hdeclaration
  have hlanguage : ({} : Workspace).languages.ofPath? path = some .lua := by
    rw [LanguageTable.ofPath?, hpath]
    rfl
  obtain ⟨hscanFile, hevents⟩ := scanFile_of_scan hlanguage hscan
  obtain ⟨hitem, hitemEvents⟩ := hblock
  have hitems : (({} : Workspace).fileOfBlocks path .lua (Language.lua.tokens
      (f.source documented ending)) [block]).items = [f.item documented path] := by
    rw [fileOfBlocks, List.filterMap_cons_some hitem, List.filterMap_nil]
  have hadded : ({} : Workspace).addFile path (f.source documented ending) =
      .ok { files := [({} : Workspace).fileOfBlocks path .lua (Language.lua.tokens
        (f.source documented ending)) [block]] } := by
    rw [addFile, hscanFile]
    rfl
  refine ⟨_, f.item documented path, hadded, hitems, rfl, rfl, rfl, rfl, rfl, rfl, rfl, ?_⟩
  intro e he
  rw [hevents, List.flatMap_singleton, hitemEvents, List.nil_append, List.mem_singleton] at he
  rw [he]
  exact Event.Level.noConfusion

/-- A method of two parameters, the second of which has no description. -/
def joinFunction : DocumentedFunction where
  isLocal := false
  name := ⟨"text", [('.', "list"), (':', "join")], by decide, by decide⟩
  params := [("sep", "a text (e.g. a comma)"), ("parts", "")]
  summary := "Joins v1.0 parts"
  isIdent_params := by decide
  nodup_params := by decide
  line_descriptions := by decide
  line_summary := by decide
  plain_summary := by decide
  sentence_summary := DocText.cutSentence?_eq_none_iff.mp (by decide)

/-- The source of `joinFunction`, with its second parameter documented first. -/
def joinSource : Text :=
  ("--- Joins v1.0 parts\n-- @param parts \n-- @param sep a text (e.g. a comma)\n" : Text)
    ++ "function text.list:join(sep, parts) end\n"

theorem addFile_joinSource : ∃ file item,
    ({} : Workspace).addFile ⟨"lib/text.lua"⟩ joinSource = .ok { files := [file] } ∧
    file.items = [item] ∧ item.name = "text.list:join" ∧ item.kind = "function" ∧
    item.summary = "Joins v1.0 parts" ∧
    item.params = [⟨"sep", none, "a text (e.g. a comma)"⟩, ⟨"parts", none, ""⟩] := by
  let documented : List (Text × Text) := [("parts", ""), ("sep", "a text (e.g. a comma)")]
  have hsource : joinFunction.source documented "\n" = joinSource := by decide +kernel
  have hdocumented : documented.Perm joinFunction.params := .swap _ _ []
  obtain ⟨file, item, hadded, hitems, hname, hkind, hsummary, -, hparams, -⟩ :=
    addFile_documentedFunction joinFunction hdocumented
      (by decide : ("\n" : Text).all Text.isBlank = true)
      (by decide : Path.extension? ⟨"lib/text.lua"⟩ = some ("lua" : Text)) (by decide +kernel)
  rw [← hsource]
  exact ⟨file, item, hadded, hitems, hname, hkind, hsummary, hparams⟩

end Workspace

end SourceDoc
