import SourceDoc.Path

namespace SourceDoc

/-- What a run is asked to do. -/
structure Invocation where
  /-- Files, directories and patterns to document. -/
  inputs : List Text := []
  config : Option Path := none
  output : Option Path := none
  format : Option Text := none
  package : Option Path := none
  keepLocals : Bool := false
  /-- Title of the project. -/
  title : Option Text := none
  /-- Progress is logged, too. -/
  verbose : Bool := false
  deriving DecidableEq, Repr

namespace Invocation

/-- Why arguments do not make an invocation. -/
inductive Refusal where
  /-- The user asks how the program is used. -/
  | help
  | unknownOption (written : Text)
  | missingValue (option : Text)
  | emptyPath (option : Text)
  | unexpectedValue (option : Text)
  | repeated (option : Text)
  | noInputs
  deriving DecidableEq, Repr

/-- The lines that say how the program is used. -/
def usageLines : List Text :=
  ["Extract documentation from doc comments in Lua and C sources",
   "",
   "Usage: ldoc [OPTIONS] <FILES>...",
   "",
   "Arguments:",
   "  <FILES>...  Input files, directories (scanned recursively) or glob patterns",
   "",
   "Options:",
   "  -c, --config <CONFIG>    Config file. Defaults to ./ldoc.toml when present",
   "  -o, --output <OUTPUT>    Output file. Writes to stdout when omitted",
   "  -f, --format <FORMAT>    Output format: json",
   "  -b, --package <PACKAGE>  Package root used to derive module names from paths",
   "      --all                Include local functions in output",
   "  -p, --project <PROJECT>  Project title",
   "  -v, --verbose            Log pipeline progress",
   "  -h, --help               Print help"]

/-- How the program is used. -/
def usage : Text :=
  usageLines.flatMap (· ++ ['\n'])

/-- How a refusal is worded. -/
def Refusal.message : Refusal → Text
  | .help => usage
  | .unknownOption written => "unexpected argument '" ++ written ++ "' found".toList
  | .missingValue option => "a value is required for '" ++ option ++ "' but none was supplied".toList
  | .emptyPath option => "a value is required for '" ++ option ++ "' but it is empty".toList
  | .unexpectedValue option => "unexpected value for '" ++ option ++ "' found".toList
  | .repeated option => "the argument '" ++ option ++ "' cannot be used multiple times".toList
  | .noInputs => "the following required arguments were not provided: <FILES>..."

/-- An option without a value. -/
inductive Flag where
  | all
  | verbose
  | help
  deriving DecidableEq, Repr

/-- An option with a value. -/
inductive Setting where
  | config
  | output
  | format
  | package
  | project
  deriving DecidableEq, Repr

/-- An option. -/
inductive OptionName where
  | flag (f : Flag)
  | setting (s : Setting)
  deriving DecidableEq, Repr

/-- The options by their long names. -/
def longNames : List (Text × OptionName) :=
  [("config", .setting .config), ("output", .setting .output), ("format", .setting .format),
   ("package", .setting .package), ("project", .setting .project), ("all", .flag .all),
   ("verbose", .flag .verbose), ("help", .flag .help)]

/-- The options by their short names. -/
def shortNames : List (Char × OptionName) :=
  [('c', .setting .config), ('o', .setting .output), ('f', .setting .format),
   ('b', .setting .package), ('p', .setting .project), ('v', .flag .verbose), ('h', .flag .help)]

/-- The long name of a setting. -/
def Setting.name : Setting → Text
  | .config => "--config"
  | .output => "--output"
  | .format => "--format"
  | .package => "--package"
  | .project => "--project"

/-- Whether the value of a setting is a path. -/
def Setting.isPath : Setting → Bool
  | .config | .output | .package => true
  | .format | .project => false

/-- The value a setting has in an invocation. -/
def Setting.get? (s : Setting) (i : Invocation) : Option Text :=
  match s with
  | .config => i.config.map (·.text)
  | .output => i.output.map (·.text)
  | .format => i.format
  | .package => i.package.map (·.text)
  | .project => i.title

/-- An invocation with the value of a setting replaced. -/
def Setting.put (s : Setting) (value : Text) (i : Invocation) : Invocation :=
  match s with
  | .config => { i with config := some ⟨value⟩ }
  | .output => { i with output := some ⟨value⟩ }
  | .format => { i with format := some value }
  | .package => { i with package := some ⟨value⟩ }
  | .project => { i with title := some value }

/-- Gives a setting a value. Each may be given once, and a path may not be empty. -/
def assign (i : Invocation) (s : Setting) (value : Text) : Except Refusal Invocation :=
  if (s.get? i).isSome then .error (.repeated s.name)
  else if s.isPath && value.isEmpty then .error (.emptyPath s.name)
  else .ok (s.put value i)

/-- Sets a flag. Each may be set once. -/
def raise (i : Invocation) : Flag → Except Refusal Invocation
  | .all => if i.keepLocals then .error (.repeated "--all") else .ok { i with keepLocals := true }
  | .verbose => if i.verbose then .error (.repeated "--verbose") else .ok { i with verbose := true }
  | .help => .error .help

/-- Whether an argument may be the value of the option before it: it does not look like an option
    itself. A lone dash does not. -/
def isValue (argument : Text) : Bool :=
  argument.head? ≠ some '-' || argument = "-"

/-- Reads the short options in an argument after its dash. The result names the setting whose value
    is the next argument, if there is one. -/
def shortOptions (i : Invocation) : Text → Except Refusal (Invocation × Option Setting)
  | [] => .ok (i, none)
  | c :: cs =>
    match shortNames.lookup c with
    | none => .error (.unknownOption ['-', c])
    | some (.flag f) =>
      match i.raise f with
      | .ok i => shortOptions i cs
      | .error refusal => .error refusal
    | some (.setting s) =>
      match cs with
      | [] => .ok (i, some s)
      | '=' :: value => (i.assign s value).map (·, none)
      | value => (i.assign s value).map (·, none)

/-- Reads a long option after its dashes. -/
def longOption (i : Invocation) (t : Text) : Except Refusal (Invocation × Option Setting) :=
  let name := t.takeWhile (· ≠ '=')
  let value? := (t.dropWhile (· ≠ '=')).tail?
  match longNames.lookup name, value? with
  | none, _ => .error (.unknownOption ("--" ++ name))
  | some (.flag _), some _ => .error (.unexpectedValue ("--" ++ name))
  | some (.flag f), none => (i.raise f).map (·, none)
  | some (.setting s), some value => (i.assign s value).map (·, none)
  | some (.setting s), none => .ok (i, some s)

/-- Reads arguments, given the setting that waits for its value. -/
def read (i : Invocation) (waiting : Option Setting) : List Text → Except Refusal Invocation
  | [] =>
    match waiting with
    | some s => .error (.missingValue s.name)
    | none => .ok i
  | argument :: rest =>
    match waiting with
    | some s =>
      if isValue argument then
        match i.assign s argument with
        | .ok i => read i none rest
        | .error refusal => .error refusal
      else .error (.missingValue s.name)
    | none =>
      match argument with
      | ['-', '-'] => .ok { i with inputs := i.inputs ++ rest }
      | '-' :: '-' :: long =>
        match i.longOption long with
        | .ok (i, waiting) => read i waiting rest
        | .error refusal => .error refusal
      | '-' :: c :: short =>
        match i.shortOptions (c :: short) with
        | .ok (i, waiting) => read i waiting rest
        | .error refusal => .error refusal
      | input => read { i with inputs := i.inputs ++ [input] } none rest

/-- Reads the arguments of a run, which need at least one input. Options may be written short or
    long, with their value in the same argument or in the next one; short options without a value
    may share an argument. After two dashes all arguments are inputs. -/
def parse (arguments : List Text) : Except Refusal Invocation :=
  match read {} none arguments with
  | .error refusal => .error refusal
  | .ok i => if i.inputs.isEmpty then .error .noInputs else .ok i

end Invocation

end SourceDoc
