import Mathlib.Data.List.DropRight
import SourceDoc.Proofs.Item.Order
import SourceDoc.Proofs.Workspace.FirstComment

namespace SourceDoc

namespace DocBlock

variable (lang : Language)

/-- The tokens behind the last comment of a block, of all behind the comment that opens it. -/
def behindBlock (ts : List Token) : List Token :=
  (ts.takeWhile (continues lang)).rtakeWhile (·.kind ≠ .comment) ++ ts.dropWhile (continues lang)

/-- The tokens behind the last comment of the block that the first comment of a file opens. -/
def behindFirstBlock (ts : List Token) : List Token :=
  match ts.dropWhile (·.kind ≠ .comment) with
  | [] => []
  | _ :: after => behindBlock lang after

/-- What stands behind a block comes right after the comment on whose last line the block ends. -/
theorem exists_last_comment (c : Token) (ts : List Token) :
    ∃ front last, c :: ts = front ++ last :: behindBlock lang ts ∧
      last.endLine = (opened lang c ts).endLine := by
  set run := ts.takeWhile (continues lang)
  have hsplit : ts = run.rdropWhile (·.kind ≠ .comment) ++ behindBlock lang ts := by
    rw [behindBlock, ← List.append_assoc, List.rdropWhile_append_rtakeWhile,
      List.takeWhile_append_dropWhile]
  -- behind the last comment of the run there is none
  have hcomments : run.filter (·.kind = .comment) =
      (run.rdropWhile (·.kind ≠ .comment)).filter (·.kind = .comment) := by
    have hspaces : (run.rtakeWhile (·.kind ≠ .comment)).filter (·.kind = .comment) = [] := by
      rw [List.filter_eq_nil_iff]
      intro t ht
      simpa using List.mem_rtakeWhile_imp ht
    conv_lhs => rw [← List.rdropWhile_append_rtakeWhile (p := (·.kind ≠ .comment)) (l := run)]
    rw [List.filter_append, hspaces, List.append_nil]
  have hend : (opened lang c ts).endLine =
      ((run.filter (·.kind = .comment)).getLast?.map Token.endLine).getD c.endLine := by
    rw [opened, continuation_eq]
  rw [hcomments] at hend
  rcases List.eq_nil_or_concat' (run.rdropWhile (·.kind ≠ .comment)) with
    hnone | ⟨init, last, hlast⟩
  · rw [hnone] at hsplit hend
    exact ⟨[], c, congrArg (c :: ·) hsplit, hend.symm⟩
  · have hkind : last.kind = .comment := by
      have hnot := List.rdropWhile_last_not (fun t : Token => decide (t.kind ≠ .comment)) run
        (by rw [hlast]; exact List.concat_ne_nil last init)
      simp only [hlast, List.getLast_concat] at hnot
      simpa using hnot
    rw [hlast] at hsplit hend
    refine ⟨c :: init, last, ?_, ?_⟩
    · rw [List.cons_append, List.append_cons, ← hsplit]
    · have hsingle : [last].filter (·.kind = .comment) = [last] := by simp [hkind]
      rw [hend, List.filter_append, hsingle, List.getLast?_concat]
      rfl

end DocBlock

/-- The tokens on the lines after a token are all behind it. -/
theorem Token.filter_line_of_pairwise {front behind : List Token} {last : Token}
    (h : (front ++ last :: behind).Pairwise fun t u => t.endLine ≤ u.line) :
    (front ++ last :: behind).filter (last.endLine < ·.line) =
      behind.filter (last.endLine < ·.line) := by
  obtain ⟨-, -, hfront⟩ := List.pairwise_append.mp h
  have hnone : front.filter (last.endLine < ·.line) = [] := by
    rw [List.filter_eq_nil_iff]
    intro t ht
    have hline := hfront t ht last List.mem_cons_self
    have hle := t.line_le_endLine
    have hlast := last.line_le_endLine
    simp only [decide_eq_true_eq]
    omega
  have hlast : ¬ last.endLine < last.line := Nat.not_lt.mpr last.line_le_endLine
  rw [List.filter_append, hnone, List.nil_append, List.filter_cons_of_neg (by simpa using hlast)]

namespace Lua

/-- The search goes on behind tokens that have no word `module` among them. -/
theorem findModuleCall_append (afterSeparator : Bool) {passed : List Token} (ts : List Token)
    (h : ∀ t ∈ passed, t.isWord "module" = false) :
    findModuleCall afterSeparator (passed ++ ts) =
      findModuleCall ((passed.getLast?.map isSeparator).getD afterSeparator) ts := by
  induction passed generalizing afterSeparator with
  | nil => rfl
  | cons t passed ih =>
    obtain ⟨ht, hpassed⟩ := List.forall_mem_cons.mp h
    rw [List.cons_append, findModuleCall.eq_def]
    simp only [ht, Bool.false_and, Bool.false_eq_true, if_false]
    rw [ih (isSeparator t) hpassed, List.getLast?_cons]
    cases passed.getLast? <;> rfl

/-- The search among tokens gives what it gives among those on the lines after a given one, if the
    code before these has no word `module` and does not end with a separator. -/
theorem moduleCall?_filter_line {ts : List Token} (line : Nat)
    (hts : ts.Pairwise fun t u => t.line ≤ u.line)
    (hword : ∀ t ∈ (ts.filter Token.isCode).filter (·.line ≤ line), t.isWord "module" = false)
    (hlast : ∀ t ∈ ((ts.filter Token.isCode).filter (·.line ≤ line)).getLast?,
      isSeparator t = false) :
    moduleCall? (ts.filter (line < ·.line)) = moduleCall? ts := by
  have hsplit : (ts.filter Token.isCode).filter (·.line ≤ line) ++
      (ts.filter Token.isCode).filter (fun t => !decide (t.line ≤ line)) =
        ts.filter Token.isCode := by
    rw [filter_append_filter_not_eq_self_iff]
    refine (hts.filter _).imp ?_
    intro t u hle hu
    simp only [decide_eq_true_eq] at hu ⊢
    omega
  have hafter : (ts.filter (line < ·.line)).filter Token.isCode =
      (ts.filter Token.isCode).filter (fun t => !decide (t.line ≤ line)) := by
    rw [List.filter_filter, List.filter_filter]
    refine List.filter_congr ?_
    intro t _
    rw [← decide_not, Bool.and_comm]
    simp only [Nat.not_le]
  have hstart : (((ts.filter Token.isCode).filter (·.line ≤ line)).getLast?.map isSeparator).getD
      false = false := by
    cases hfound : ((ts.filter Token.isCode).filter (·.line ≤ line)).getLast? with
    | none => rfl
    | some t => exact hlast t hfound
  calc moduleCall? (ts.filter (line < ·.line))
      = findModuleCall false ((ts.filter Token.isCode).filter fun t => !decide (t.line ≤ line)) := by
        rw [moduleCall?, hafter]
    _ = findModuleCall false (ts.filter Token.isCode) := by
        rw [← hsplit, findModuleCall_append false _ hword, hstart, hsplit]

end Lua

namespace Workspace

open DocBlock

/-- The tokens behind the first block of a file come right after the comment where the block
    ends. -/
theorem exists_last_comment_of_scan {lang : Language} {path : Path} {src : Text} {b : DocBlock}
    {others : List DocBlock} (hscan : scan lang path src = .ok (b :: others)) :
    b.isFirst = true ∧ ∃ front last,
      lang.tokens src = front ++ last :: behindFirstBlock lang (lang.tokens src) ∧
        last.endLine = b.endLine := by
  obtain ⟨before, hbefore⟩ := List.dropWhile_suffix (fun t : Token => decide (t.kind ≠ .comment))
    (l := lang.tokens src)
  cases hdrop : (lang.tokens src).dropWhile (·.kind ≠ .comment) with
  | nil =>
    rw [scan, ofTokens, hdrop] at hscan
    cases hscan
  | cons c after =>
    obtain ⟨front, last, hlast, hend⟩ := exists_last_comment lang c after
    rw [scan, ofTokens, hdrop] at hscan
    dsimp only at hscan
    split at hscan
    · cases hscan
      refine ⟨rfl, before ++ front, last, ?_, hend⟩
      rw [behindFirstBlock, hdrop, List.append_assoc, ← hlast, ← hdrop, hbefore]
    · cases hscan

/-- A file whose first block opens no module is added with the call of `module` that stands on the
    lines after this block. It is the first call behind the block if the code between has no word
    `module` and does not end with a separator. -/
theorem addFile_takes_call_behind {w : Workspace} {path : Path} {src : Text} {b : DocBlock}
    {others : List DocBlock} (hlang : w.languages.ofPath? path = some .lua)
    (hscan : scan .lua path src = .ok (b :: others))
    (hkind : w.openedKind? (DocText.read w.rules b.text) = none) :
    let behind := behindFirstBlock .lua (Language.lua.tokens src)
    let beside := (behind.filter Token.isCode).filter (·.line ≤ b.endLine)
    ∃ file, w.scanFile path src = .ok file ∧
      w.addFile path src = .ok { w with files := w.files ++ [file] } ∧
      file.moduleCall = Lua.moduleCall? (behind.filter (b.endLine < ·.line)) ∧
      ((∀ t ∈ beside, t.isWord "module" = false) →
        (∀ t ∈ beside.getLast?, Lua.isSeparator t = false) →
          file.moduleCall = Lua.moduleCall? behind) := by
  intro behind beside
  obtain ⟨hfirst, front, last, htokens, hend⟩ := exists_last_comment_of_scan hscan
  have hpairwise := (Language.lua.cuts_tokens src).pairwise
  have hfile := (scanFile_of_scan hlang hscan).1
  change Language.lua.tokens src = front ++ last :: behind at htokens
  rw [htokens] at hpairwise
  have hafter : (Language.lua.tokens src).filter (b.endLine < ·.line) =
      behind.filter (b.endLine < ·.line) := by
    rw [htokens, ← hend]
    exact Token.filter_line_of_pairwise hpairwise
  have hcall : (w.fileOfBlocks path .lua (Language.lua.tokens src) (b :: others)).moduleCall =
      Lua.moduleCall? (behind.filter (b.endLine < ·.line)) := by
    rw [fileOfBlocks, List.find?_cons_of_pos hfirst, Option.bind_some, moduleCallOf?, hkind]
    exact congrArg Lua.moduleCall? hafter
  refine ⟨_, hfile, ?_, hcall, ?_⟩
  · rw [addFile, hfile]
    rfl
  · intro hword hlast
    have hlines : behind.Pairwise fun t u => t.line ≤ u.line := by
      have hsuffix : behind <:+ front ++ last :: behind :=
        (List.suffix_cons last behind).trans (List.suffix_append front _)
      refine (hpairwise.sublist hsuffix.sublist).imp ?_
      intro t u hle
      exact t.line_le_endLine.trans hle
    exact hcall.trans (Lua.moduleCall?_filter_line b.endLine hlines hword hlast)

/-- A source with code on the line where the first block ends, and a call on a line of its own. -/
def calledBelow : Text :=
  "--- A.\n-- more\n--[[x]] local y = z\nmodule(\"m\")"

theorem scan_calledBelow :
    scan .lua ⟨"m.lua"⟩ calledBelow =
      .ok [⟨"A.\nmore\nx", 1, 3, some ⟨"y", .variable, true⟩, true⟩] :=
  ofTokens_eq_ok_iff.mpr ⟨by decide +kernel, by decide +kernel⟩

/-- Code on the line where the block ends does no harm if it can not be a part of a call. -/
theorem addFile_takes_call_behind_below :
    ∃ file, ({} : Workspace).scanFile ⟨"m.lua"⟩ calledBelow = .ok file ∧
      file.moduleCall = some (.named "m") := by
  obtain ⟨file, hfile, -, -, hcall⟩ :=
    addFile_takes_call_behind (by decide : ({} : Workspace).languages.ofPath? ⟨"m.lua"⟩ = some .lua)
      scan_calledBelow (by decide +kernel)
  exact ⟨file, hfile,
    (hcall (by decide +kernel) (by decide +kernel)).trans (by decide +kernel)⟩

/-- A source with a call on the line where the first block ends. -/
def calledBeside : Text :=
  "--[[-- Doc. ]] module(\"x\")\n"

/-- That call stands behind the block and is not found. -/
theorem addFile_misses_call_beside :
    ∃ b file, scan .lua ⟨"m.lua"⟩ calledBeside = .ok [b] ∧
      ({} : Workspace).languages.ofPath? ⟨"m.lua"⟩ = some .lua ∧
      ({} : Workspace).openedKind? (DocText.read ({} : Workspace).rules b.text) = none ∧
      Lua.moduleCall? (behindFirstBlock .lua (Lua.tokens calledBeside)) = some (.named "x") ∧
      ({} : Workspace).addFile ⟨"m.lua"⟩ calledBeside =
        .ok { ({} : Workspace) with files := [file] } ∧ file.moduleCall = none := by
  have hscan : scan .lua ⟨"m.lua"⟩ calledBeside = .ok [⟨"Doc. ", 1, 1, none, true⟩] :=
    ofTokens_eq_ok_iff.mpr ⟨by decide +kernel, by decide +kernel⟩
  have hlang : ({} : Workspace).languages.ofPath? ⟨"m.lua"⟩ = some .lua := by decide
  have hadded : ({} : Workspace).addFile ⟨"m.lua"⟩ calledBeside =
      .ok { files := [fileOfBlocks {} ⟨"m.lua"⟩ .lua (Lua.tokens calledBeside)
        [⟨"Doc. ", 1, 1, none, true⟩]] } := by
    rw [addFile, (scanFile_of_scan hlang hscan).1]
    rfl
  exact ⟨_, _, hscan, hlang, by decide +kernel, by decide +kernel, hadded, by decide +kernel⟩

end Workspace

end SourceDoc
