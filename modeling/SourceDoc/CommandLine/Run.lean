import SourceDoc.CommandLine.Arguments
import SourceDoc.CommandLine.Inputs
import SourceDoc.CommandLine.Step
import SourceDoc.Config.OfToml
import SourceDoc.Project.Render
import SourceDoc.Workspace.Scan

namespace SourceDoc

namespace Invocation

/-- The configuration file that is read if there is one and no other is given. -/
def defaultConfig : Path :=
  ⟨"./ldoc.toml"⟩

/-- Reads a configuration file. -/
def readConfig (fs : FileSystem) (path : Path) : Except Failure Config :=
  match fs.read path with
  | .error fault => .error (.access fault)
  | .ok t => Config.parse t

/-- The configuration of a run. -/
def loadConfig (i : Invocation) (fs : FileSystem) : Except Report Config :=
  match i.config with
  | some path =>
    (readConfig fs path).mapError (Report.because ("failed to load config " ++ path.text))
  | none =>
    if fs.isFile defaultConfig then
      (readConfig fs defaultConfig).mapError (Report.because "failed to load ldoc.toml")
    else .ok {}

/-- A workspace with the options of the command line, which win over those of the configuration. -/
def override (i : Invocation) (w : Workspace) : Workspace :=
  { w with
    options := {
      keepLocals := w.options.keepLocals || i.keepLocals
      package := i.package.or w.options.package
      title := i.title.or w.options.title } }

/-- The workspace a run starts with. -/
def workspace (i : Invocation) (c : Config) : Except Report Workspace :=
  ((Workspace.ofConfig c).mapError (Report.because "invalid configuration")).map i.override

/-- The output format of a run. -/
def outputFormat (i : Invocation) (c : Config) : Except Report Format :=
  (Format.ofName ((i.format.or c.format).getD "json")).mapError Report.ofFailure

/-- Reads and scans a file. -/
def scanInto (fs : FileSystem) (w : Workspace) (path : Path) : Except Report Workspace :=
  match fs.read path with
  | .error fault => .error ⟨"failed to read " ++ path.text, [fault.message]⟩
  | .ok src => (w.addFile path src).mapError (Report.because ("failed to process " ++ path.text))

/-- The files of a run; there has to be one. -/
def inputFiles (i : Invocation) (fs : FileSystem) (w : Workspace) : Except Report (List Path) := do
  let files ← Inputs.expand (Glob.finder fs) fs w i.inputs
  if files.isEmpty then .error ⟨"no input files", []⟩ else .ok files

/-- Prints a document, or writes it to the output file. -/
def deliver (i : Invocation) (document : Text) : Step Unit :=
  match i.output with
  | none => Step.print document
  | some path => Step.write path document

/-- Carries out a run step by step, up to the first one that fails: it reads the configuration, the
    inputs and their files, and delivers the documentation as the last of its steps. The result is
    what was printed or written. -/
def perform (i : Invocation) : Step Text := do
  let config ← Step.look i.loadConfig
  let w ← Step.look fun _ => i.workspace config
  let format ← Step.look fun _ => i.outputFormat config
  let paths ← Step.look (i.inputFiles · w)
  let scanned ← paths.foldlM (fun w path => Step.look (scanInto · w path)) w
  let p ← Step.look fun _ => scanned.project.mapError Report.ofFailure
  let document := format.render p
  i.deliver document
  return document

/-- What a run leaves behind. -/
structure Outcome where
  /-- The documentation. -/
  document : Text
  /-- What is printed. -/
  printed : Text
  /-- The files after the run. -/
  files : FileSystem

/-- What a run leaves behind if it succeeds, and else why it failed. -/
def run (i : Invocation) (fs : FileSystem) : Except Report Outcome :=
  match i.perform.runIn ⟨fs, []⟩ with
  | (.ok document, after) => .ok ⟨document, after.printed, after.files⟩
  | (.error report, _) => .error report

/-- What scanning files reports, up to the first that fails. -/
def scanEvents (fs : FileSystem) (w : Workspace) : List Path → List Event
  | [] => []
  | path :: rest =>
    match fs.read path with
    | .error _ => []
    | .ok src =>
      w.scanFileEvents path src
        ++ match w.addFile path src with
          | .error _ => []
          | .ok w => scanEvents fs w rest

/-- What assembling the project of a run reports. -/
def assemblyEvents (w : Workspace) : List Event :=
  w.projectEvents
    ++ match w.project with
      | .error _ => []
      | .ok p => [.resolved p.modules.length]

/-- What a run with the given configuration reports from expanding its inputs on. -/
def eventsIn (i : Invocation) (fs : FileSystem) (w : Workspace) : List Event :=
  Inputs.expandEvents (Glob.finder fs) fs w i.inputs
    ++ match i.inputFiles fs w with
      | .error _ => []
      | .ok files =>
        scanEvents fs w files
          ++ match files.foldlM (scanInto fs) w with
            | .error _ => []
            | .ok scanned => assemblyEvents scanned

/-- What a run reports on the way. -/
def events (i : Invocation) (fs : FileSystem) : List Event :=
  let prepared := do
    let config ← i.loadConfig fs
    let w ← i.workspace config
    let _ ← i.outputFormat config
    return w
  match prepared with
  | .error _ => []
  | .ok w => i.eventsIn fs w

end Invocation

end SourceDoc
