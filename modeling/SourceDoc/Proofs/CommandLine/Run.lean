import SourceDoc.CommandLine.Run
import SourceDoc.Proofs.Except
import SourceDoc.Proofs.FileTree.Write
import SourceDoc.Proofs.Workspace.Runs

namespace SourceDoc

namespace Step

variable {α β γ : Type}

/-- A step that fails ends the run in the world it has left. -/
theorem runIn_bind (s : Step α) (k : α → Step β) (w : World) :
    (s >>= k).runIn w =
      match s.runIn w with
      | (.ok a, next) => (k a).runIn next
      | (.error report, next) => (.error report, next) := by
  simp only [runIn, ExceptT.run_bind, StateT.run_bind]
  obtain ⟨result, next⟩ := (ExceptT.run s).run w
  cases result <;> rfl

theorem runIn_get (w : World) : (get : Step World).runIn w = (.ok w, w) := rfl

/-- Looking changes nothing, whatever is found. -/
theorem runIn_look (find : FileSystem → Except Report α) (w : World) :
    (look find).runIn w = (find w.files, w) := by
  rw [look, runIn_bind, runIn_get]
  dsimp only
  cases find w.files <;> rfl

theorem runIn_write (path : Path) (t : Text) (w : World) :
    (write path t).runIn w =
      match w.files.write path t with
      | .ok written => (.ok (), ⟨written.files, w.printed ++ written.printed⟩)
      | .error fault => (.error ⟨"failed to write " ++ path.text, [fault.message]⟩, w) := by
  rw [write, runIn_bind, runIn_get]
  dsimp only
  cases w.files.write path t <;> rfl

/-- Steps are known from what they do in every world. -/
theorem ext {s t : Step α} (h : ∀ w, s.runIn w = t.runIn w) : s = t :=
  funext h

/-- What was found decides how the run goes on, in the same world. -/
theorem runIn_look_bind (find : FileSystem → Except Report α) (k : α → Step β) (w : World) :
    (look find >>= k).runIn w =
      match find w.files with
      | .ok a => (k a).runIn w
      | .error report => (.error report, w) := by
  rw [runIn_bind, runIn_look]
  cases find w.files <;> rfl

/-- What is found by looking twice can be found by looking once. -/
theorem look_bind_bind (find : FileSystem → Except Report α)
    (g : α → FileSystem → Except Report β) (k : β → Step γ) :
    (look (fun fs => find fs >>= fun a => g a fs) >>= k) =
      look find >>= fun a => look (g a) >>= k := by
  refine ext fun w => ?_
  rw [runIn_look_bind, runIn_look_bind]
  cases find w.files with
  | error report => rfl
  | ok a => exact (runIn_look_bind (g a) k w).symm

theorem look_pure_bind (a : α) (k : α → Step β) : (look (fun _ => pure a) >>= k) = k a :=
  ext fun w => runIn_look_bind _ k w

/-- Looking at one thing after the other is one look at them all. -/
theorem foldlM_look (f : β → α → FileSystem → Except Report β) (as : List α) (b : β) :
    (as.foldlM (fun b a => look (f b a)) b) =
      look fun fs => as.foldlM (fun b a => f b a fs) b := by
  induction as generalizing b with
  | nil => exact ext fun w => (runIn_look (fun _ => pure b) w).symm
  | cons a as ih =>
    have hcons := look_bind_bind (f b a) (fun c fs => as.foldlM (fun b a => f b a fs) c) pure
    simp only [bind_pure] at hcons
    simp only [List.foldlM_cons, ih, hcons]

end Step

namespace Invocation

/-- The text that a run delivers, as far as the files decide about it. -/
def documentation (i : Invocation) (fs : FileSystem) : Except Report Text := do
  let config ← i.loadConfig fs
  let w ← i.workspace config
  let format ← i.outputFormat config
  let paths ← i.inputFiles fs w
  let scanned ← paths.foldlM (scanInto fs) w
  let p ← scanned.project.mapError Report.ofFailure
  return format.render p

/-- A run looks at the files first, and delivers what it found out as its last step. -/
theorem perform_eq (i : Invocation) :
    i.perform = Step.look i.documentation >>= fun document => do
      i.deliver document
      return document := by
  unfold documentation
  simp only [Step.look_bind_bind, Step.look_pure_bind, perform, Step.foldlM_look]

/-- A workspace that was configured has no files yet. -/
theorem files_workspace {i : Invocation} {config : Config} {w : Workspace}
    (h : i.workspace config = .ok w) : w.files = [] := by
  have hfiles := (Workspace.configures_apply {} config).files
  rw [workspace, Workspace.ofConfig] at h
  cases happly : ({} : Workspace).apply config with
  | mk later failure =>
    rw [happly] at h hfiles
    cases failure with
    | some failure => cases h
    | none =>
      cases h
      exact hfiles

/-- The files to be read are those that the inputs stand for, and there has to be one. -/
theorem inputFiles_eq_ok_iff {i : Invocation} {fs : FileSystem} {w : Workspace} {paths : List Path} :
    i.inputFiles fs w = .ok paths ↔
      Inputs.expand (Glob.finder fs) fs w i.inputs = .ok paths ∧ paths ≠ [] := by
  rw [inputFiles, bind_eq_ok_iff]
  constructor
  · rintro ⟨found, hfound, h⟩
    split at h
    · cases h
    · rename_i hne
      cases h
      exact ⟨hfound, by simpa using hne⟩
  · rintro ⟨hfound, hne⟩
    refine ⟨paths, hfound, if_neg ?_⟩
    simpa using hne

section Scanning

variable {fs : FileSystem} {w scanned : Workspace} {path : Path} {paths : List Path}

theorem scanInto_eq_ok_iff : scanInto fs w path = .ok scanned ↔
    ∃ file, (∃ src, fs.read path = .ok src ∧ w.scanFile path src = .ok file) ∧
      scanned = { w with files := w.files ++ [file] } := by
  rw [scanInto]
  cases hread : fs.read path with
  | error fault => simp
  | ok src =>
    dsimp only
    rw [mapError_eq_ok_iff, Workspace.addFile, bind_eq_ok_iff]
    constructor
    · rintro ⟨file, hfile, h⟩
      cases h
      exact ⟨file, ⟨src, rfl, hfile⟩, rfl⟩
    · rintro ⟨file, ⟨_, hsrc, hfile⟩, rfl⟩
      cases hsrc
      exact ⟨file, hfile, rfl⟩

/-- Files are scanned one after the other into a workspace whose rules stay the same, so each of
    them is scanned as if it were alone. -/
theorem foldlM_scanInto_eq_ok_iff : paths.foldlM (scanInto fs) w = .ok scanned ↔
    ∃ files, List.Forall₂
        (fun path file => ∃ src, fs.read path = .ok src ∧ w.scanFile path src = .ok file)
        paths files ∧
      scanned = { w with files := w.files ++ files } := by
  induction paths generalizing w with
  | nil =>
    rw [List.foldlM_nil]
    constructor
    · intro h
      cases h
      exact ⟨[], .nil, by rw [List.append_nil]⟩
    · rintro ⟨files, hfiles, rfl⟩
      cases hfiles
      rw [List.append_nil]
      rfl
  | cons path paths ih =>
    rw [List.foldlM_cons, bind_eq_ok_iff]
    constructor
    · rintro ⟨next, hnext, hrest⟩
      obtain ⟨file, hfile, rfl⟩ := scanInto_eq_ok_iff.mp hnext
      obtain ⟨files, hfiles, rfl⟩ := ih.mp hrest
      exact ⟨file :: files, .cons hfile hfiles, by rw [List.append_assoc]; rfl⟩
    · rintro ⟨files, hfiles, rfl⟩
      cases hfiles with
      | cons hfile hfiles =>
        refine ⟨_, scanInto_eq_ok_iff.mpr ⟨_, hfile, rfl⟩, ih.mpr ⟨_, hfiles, ?_⟩⟩
        rw [List.append_assoc]
        rfl

end Scanning

/-- What a run finds out before it delivers anything: its configuration, the workspace that makes,
    the format, the files its inputs stand for, each as it is read and scanned, and the project they
    make up. -/
structure Findings (i : Invocation) (fs : FileSystem) where
  config : Config
  workspace : Workspace
  format : Format
  paths : List Path
  files : List SourceFile
  project : Project
  configured : i.loadConfig fs = .ok config
  prepared : i.workspace config = .ok workspace
  formatted : i.outputFormat config = .ok format
  expanded : Inputs.expand (Glob.finder fs) fs workspace i.inputs = .ok paths
  nonempty : paths ≠ []
  scanned : List.Forall₂
    (fun path file => ∃ src, fs.read path = .ok src ∧ workspace.scanFile path src = .ok file)
    paths files
  assembled : Project.assemble files workspace.itemKinds workspace.moduleKinds workspace.options =
    .ok project

/-- The project that was found, as it is to be read. -/
def Findings.document {i : Invocation} {fs : FileSystem} (f : i.Findings fs) : Text :=
  f.format.render f.project

/-- A run has a text to deliver exactly if all its findings can be made. -/
theorem documentation_eq_ok_iff {i : Invocation} {fs : FileSystem} {document : Text} :
    i.documentation fs = .ok document ↔ ∃ f : i.Findings fs, f.document = document := by
  simp only [documentation, bind_eq_ok_iff, inputFiles_eq_ok_iff, mapError_eq_ok_iff,
    foldlM_scanInto_eq_ok_iff]
  constructor
  · rintro ⟨config, hconfig, w, hw, format, hformat, paths, ⟨hpaths, hne⟩, scanned,
      ⟨files, hfiles, rfl⟩, p, hp, hdocument⟩
    cases hdocument
    rw [Workspace.project, files_workspace hw, List.nil_append] at hp
    exact ⟨⟨config, w, format, paths, files, p, hconfig, hw, hformat, hpaths, hne, hfiles, hp⟩, rfl⟩
  · rintro ⟨f, rfl⟩
    refine ⟨f.config, f.configured, f.workspace, f.prepared, f.format, f.formatted, f.paths,
      ⟨f.expanded, f.nonempty⟩, _, ⟨f.files, f.scanned, rfl⟩, f.project, ?_, rfl⟩
    rw [Workspace.project, files_workspace f.prepared, List.nil_append]
    exact f.assembled

theorem Findings.documentation_eq {i : Invocation} {fs : FileSystem} (f : i.Findings fs) :
    i.documentation fs = .ok f.document :=
  documentation_eq_ok_iff.mpr ⟨f, rfl⟩

/-- How a document is delivered while everything else stays as it was. -/
inductive Delivered (document : Text) (before : World) : Option Path → World → Prop
  | printed :
      Delivered document before none { before with printed := before.printed ++ document }
  /-- A device prints what is written to it or forgets it. -/
  | sent {path : Path} {place : List Text} {d : Device} {after : World}
      (htarget : before.files.target path = .ok place)
      (hdevice : before.files.root.at? place = some (.device d)) (hroom : d.sink ≠ .full)
      (hprinted : after.printed = before.printed ++ if d.sink = .output then document else [])
      (hfiles : after.files = before.files) :
      Delivered document before (some path) after
  /-- The output file has the document in it, and what stands at any other place stood there
      before. -/
  | stored {path : Path} {place : List Text} {after : World}
      (htarget : before.files.target path = .ok place)
      (hread : after.files.read path = .ok document) (hprinted : after.printed = before.printed)
      (hcurrent : after.files.current = before.files.current)
      (hothers : ∀ other, other ≠ place →
        after.files.root.node? other = before.files.root.node? other) :
      Delivered document before (some path) after

/-- Delivering a document either fails and changes nothing, or prints it or writes one file. -/
theorem runIn_deliver (i : Invocation) (document : Text) (before : World) :
    match (i.deliver document).runIn before with
    | (.error _, after) => after = before ∧
        ∃ path fault, i.output = some path ∧ before.files.write path document = .error fault
    | (.ok (), after) => Delivered document before i.output after := by
  rw [deliver]
  cases houtput : i.output with
  | none => exact .printed
  | some path =>
    dsimp only
    rw [Step.runIn_write]
    cases hwrite : before.files.write path document with
    | error fault => exact ⟨rfl, path, fault, rfl, hwrite⟩
    | ok written =>
      obtain ⟨place, htarget, hsent | hstored⟩ := FileSystem.write_eq_ok hwrite
      · obtain ⟨d, hdevice, hroom, rfl⟩ := hsent
        exact .sent htarget hdevice hroom rfl rfl
      · obtain ⟨hread, hprinted, hcurrent, hnodes⟩ := hstored
        refine .stored htarget hread ?_ hcurrent ?_
        · rw [hprinted, List.append_nil]
        · intro other hother
          rw [hnodes, if_neg hother]

/-- A run that fails has printed nothing and left all files as they were, wherever it failed; and it
    fails only if there is something it can not find out, or the document can not be written. A run
    that succeeds has delivered the document of all the files its inputs stand for, and nothing
    else. -/
theorem perform_all_or_nothing (i : Invocation) (before : World) :
    match i.perform.runIn before with
    | (.error _, after) => after = before ∧ ∀ f : i.Findings before.files, ∃ path fault,
        i.output = some path ∧ before.files.write path f.document = .error fault
    | (.ok document, after) =>
      (∃ f : i.Findings before.files, f.document = document) ∧
        Delivered document before i.output after := by
  rw [perform_eq, Step.runIn_look_bind]
  cases hfound : i.documentation before.files with
  | error report =>
    refine ⟨rfl, fun f => ?_⟩
    cases hfound.symm.trans f.documentation_eq
  | ok document =>
    dsimp only
    rw [Step.runIn_bind]
    have hdeliver := runIn_deliver i document before
    generalize (i.deliver document).runIn before = ending at hdeliver ⊢
    obtain ⟨result, after⟩ := ending
    cases result with
    | error report =>
      obtain ⟨hsame, path, fault, houtput, hwrite⟩ := hdeliver
      refine ⟨hsame, fun f => ⟨path, fault, houtput, ?_⟩⟩
      cases hfound.symm.trans f.documentation_eq
      exact hwrite
    | ok done => exact ⟨documentation_eq_ok_iff.mp hfound, hdeliver⟩

end Invocation

end SourceDoc
