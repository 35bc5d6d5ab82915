import SourceDoc.Proofs.DocBlock.LineEnds
import SourceDoc.Workspace.Scan

namespace SourceDoc.Workspace

variable (w : Workspace) (path : Path) {lang : Language} {ts us : List Token}

/-- Blocks that differ in line ends become the same item. -/
theorem itemOfBlock?_eq {b c : DocBlock} (h : b.Alike c) :
    w.itemOfBlock? path c = w.itemOfBlock? path b := by
  have hdocuments (doc : DocText) : documentsFile c doc = documentsFile b doc := by
    rw [documentsFile, documentsFile, h.isFirst, h.declaration]
  unfold itemOfBlock?
  simp only [DocText.read_eq h.text, h.line, h.declaration, hdocuments]

theorem filter_line_alike (h : List.Forall₂ (Token.Alike lang) ts us) (line : Nat) :
    List.Forall₂ (Token.Alike lang) (ts.filter fun t => line < t.line)
      (us.filter fun t => line < t.line) := by
  induction h with
  | nil => exact .nil
  | @cons t u ts us ht _ ih =>
    rw [List.filter_cons, List.filter_cons, ht.line_eq]
    split
    · exact .cons ht ih
    · exact ih

/-- The call behind a block is found at the same place. -/
theorem moduleCallOf?_eq (h : List.Forall₂ (Token.Alike lang) ts us) {b c : DocBlock}
    (hb : b.Alike c) : w.moduleCallOf? lang us c = w.moduleCallOf? lang ts b := by
  unfold moduleCallOf?
  rw [DocText.read_eq hb.text, hb.endLine, lang.moduleCall?_eq (filter_line_alike h b.endLine)]

theorem filterMap_itemOfBlock?_eq {bs cs : List DocBlock}
    (hblocks : List.Forall₂ DocBlock.Alike bs cs) :
    cs.filterMap (w.itemOfBlock? path) = bs.filterMap (w.itemOfBlock? path) := by
  induction hblocks with
  | nil => rfl
  | cons hb _ ih => rw [List.filterMap_cons, List.filterMap_cons, w.itemOfBlock?_eq path hb, ih]

theorem find?_bind_moduleCallOf?_eq (h : List.Forall₂ (Token.Alike lang) ts us)
    {bs cs : List DocBlock} (hblocks : List.Forall₂ DocBlock.Alike bs cs) :
    (cs.find? (·.isFirst)).bind (w.moduleCallOf? lang us) =
      (bs.find? (·.isFirst)).bind (w.moduleCallOf? lang ts) := by
  induction hblocks with
  | nil => rfl
  | cons hb _ ih =>
    rw [List.find?_cons, List.find?_cons, hb.isFirst]
    split
    · exact w.moduleCallOf?_eq h hb
    · exact ih

/-- What a file holds does not depend on its line ends. -/
theorem fileOfBlocks_eq (h : List.Forall₂ (Token.Alike lang) ts us) {bs cs : List DocBlock}
    (hblocks : List.Forall₂ DocBlock.Alike bs cs) :
    w.fileOfBlocks path lang us cs = w.fileOfBlocks path lang ts bs := by
  rw [fileOfBlocks, fileOfBlocks, w.filterMap_itemOfBlock?_eq path hblocks,
    w.find?_bind_moduleCallOf?_eq h hblocks]

/-- Whether a file can be scanned does not depend on its line ends, and if not, it fails in the same
    way. -/
theorem scanFile_eq {src other : Text} (h : Text.Returned [] src other)
    (hescape : src.EscapesNoFeed) : w.scanFile path other = w.scanFile path src := by
  unfold scanFile
  split
  · rfl
  · rename_i lang _
    have hscans := DocBlock.scan_alike lang path h hescape
    generalize DocBlock.scan lang path src = result at hscans ⊢
    generalize DocBlock.scan lang path other = otherResult at hscans ⊢
    cases hscans with
    | error e => rfl
    | ok hblocks =>
      have hfile := w.fileOfBlocks_eq path (lang.tokens_alike h hescape) hblocks
      exact congrArg Except.ok hfile

/-- The line ends of a source do not matter: with a carriage return before each line feed it fails
    to be scanned in the same way, or the same file is added to the workspace, with the same items
    on the same lines and the same module call. The source must not have carriage returns, and no
    backslash before a line feed, which ends a literal where another escaped character would not. -/
theorem addFile_withReturns {src : Text} (hreturn : '\r' ∉ src) (hescape : src.EscapesNoFeed) :
    w.addFile path src.withReturns = w.addFile path src := by
  rw [addFile, addFile, w.scanFile_eq path (Text.returned_withReturns hreturn) hescape]

/-- A macro behind two comments and, after it, a literal that is not closed on its line. -/
def macroSource : Text :=
  "/// Adds.\n// @param a x\n#define ADD(a)\n'\n"

theorem addFile_macroSource :
    macroSource.withReturns = ("/// Adds.\r\n// @param a x\r\n#define ADD(a)\r\n'\r\n" : Text) ∧
      ({} : Workspace).addFile ⟨"add.c"⟩ macroSource.withReturns =
        ({} : Workspace).addFile ⟨"add.c"⟩ macroSource ∧
      ((({} : Workspace).addFile ⟨"add.c"⟩ macroSource).toOption.map fun w =>
        w.files.flatMap (·.items.map fun item => (item.name, item.line))) =
          some [(("ADD" : Text), 1)] := by
  refine ⟨by decide, ?_, by decide +kernel⟩
  exact addFile_withReturns {} ⟨"add.c"⟩ (by decide) (by decide +kernel)

end SourceDoc.Workspace
