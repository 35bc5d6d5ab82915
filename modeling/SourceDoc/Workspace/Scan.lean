import SourceDoc.DocBlock
import SourceDoc.Item.Build
import SourceDoc.Workspace.Basic

namespace SourceDoc

namespace Workspace

/-- The kind of the module a doc block opens: its first tag that may open a module or else its
    class, if that is a kind of modules. -/
def openedKind? (w : Workspace) (doc : DocText) : Option Text :=
  (doc.projectTag.or (doc.tags.first? "class")).filter w.moduleKinds.contains

/-- Whether a block documents the module of its file without saying so: it is the first of the file
    and has neither a class nor a declaration. -/
def documentsFile (block : DocBlock) (doc : DocText) : Bool :=
  block.isFirst && (doc.tags.first? "class").isNone && block.declaration.isNone

/-- The item a doc block becomes. -/
def itemOfBlock? (w : Workspace) (path : Path) (block : DocBlock) : Option Item :=
  let doc := DocText.read w.rules block.text
  match w.openedKind? doc with
  | some kind => some (Item.seed doc kind path block.line false)
  | none =>
    if documentsFile block doc then some (Item.seed doc Kind.moduleId path block.line true)
    else Item.build? doc block.declaration path block.line

/-- What making a doc block into an item reports. -/
def itemOfBlockEvents (w : Workspace) (path : Path) (block : DocBlock) : List Event :=
  let doc := DocText.read w.rules block.text
  DocText.readEvents w.rules block.text
    ++ if (w.openedKind? doc).isSome || documentsFile block doc then []
      else Item.buildEvents doc block.declaration path block.line

/-- The call that defines the module of a file. It is looked for in the lines after the first block,
    unless that block opens a module. -/
def moduleCallOf? (w : Workspace) (lang : Language) (tokens : List Token) (block : DocBlock) :
    Option ModuleCall :=
  if (w.openedKind? (DocText.read w.rules block.text)).isSome then none
  else lang.moduleCall? (tokens.filter fun t => block.endLine < t.line)

/-- The items and the module call of a file with the given blocks. -/
def fileOfBlocks (w : Workspace) (path : Path) (lang : Language) (tokens : List Token)
    (blocks : List DocBlock) : SourceFile where
  path
  language := lang.name
  items := blocks.filterMap (w.itemOfBlock? path)
  moduleCall := (blocks.find? (·.isFirst)).bind (w.moduleCallOf? lang tokens)

/-- Scans a file. -/
def scanFile (w : Workspace) (path : Path) (src : Text) : Except Failure SourceFile :=
  match w.languages.ofPath? path with
  | none => .error (.unsupportedFile path)
  | some lang => do
    let blocks ← DocBlock.scan lang path src
    return w.fileOfBlocks path lang (lang.tokens src) blocks

/-- What scanning a file reports. -/
def scanFileEvents (w : Workspace) (path : Path) (src : Text) : List Event :=
  match w.languages.ofPath? path with
  | none => []
  | some lang =>
    match DocBlock.scan lang path src with
    | .error _ => []
    | .ok blocks =>
      blocks.flatMap (w.itemOfBlockEvents path)
        ++ [.scanned path (blocks.filterMap (w.itemOfBlock? path)).length]

/-- The workspace with a file scanned into it. -/
def addFile (w : Workspace) (path : Path) (src : Text) : Except Failure Workspace := do
  let file ← w.scanFile path src
  return { w with files := w.files ++ [file] }

end Workspace

end SourceDoc
