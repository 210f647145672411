import SelectorCompiler.CommandLine.Options
import SelectorCompiler.Files
import SelectorCompiler.Json.Reader
import SelectorCompiler.Json.Writer
import SelectorCompiler.Query.Basic
import SelectorCompiler.Selector.Json
import SelectorCompiler.Warning

/-!
# Runs

A run compiles the expressions of the command line one after another. With a memo file it begins
with the memo of that file and writes the memo back at the end, unless something stopped it. All of
a run is a function of the options and of what the memo file holds; only the reading and the
writing of that file are left to others.

Specification §§10.2, 10.3 and 10.4.
-/

namespace SelectorCompiler.CommandLine

/-- Why a run fails. -/
inductive Failure where
  /-- The memo file cannot be read. -/
  | unreadable (path : String) (fault : Fault)
  /-- The memo file holds no JSON text. -/
  | notJson (path : String)
  /-- An expression does not compile. -/
  | notCompiled (expression : String) (error : CompileError)
  /-- The memo file cannot be written. -/
  | unwritable (path : String) (fault : Fault)
  /-- Some of the expressions do not compile. -/
  | someNotCompiled (failures total : Nat)
deriving DecidableEq, Repr

/-- A text with every line after the first indented. -/
def indentLines (text : String) : String :=
  String.intercalate "\n    " (Text.pieces '\n' text)

/-- What a failing run prints at its end: what went wrong, and in a paragraph of its own why. For a
memo file that is no JSON the paragraph stays empty: its words are those of the JSON reader at hand,
and this reader only says that it stopped. -/
def Failure.report : Failure → String
  | .unreadable path fault => caused ("failed to read " ++ path) fault.message
  | .notJson path => "Error: " ++ path ++ " is not valid JSON\n\nCaused by:\n"
  | .notCompiled expression error => caused ("failed to compile '" ++ expression ++ "'") error.message
  | .unwritable path fault => caused ("failed to write " ++ path) fault.message
  | .someNotCompiled failures total =>
    "Error: " ++ toString failures ++ " of " ++ toString total ++
      " selector(s) failed to compile\n"
where
  /-- A failure with its cause. -/
  caused (failure cause : String) : String :=
    "Error: " ++ failure ++ "\n\nCaused by:\n    " ++ indentLines cause ++ "\n"

/-- How a run ends. -/
structure Outcome where
  /-- The exit status. -/
  exit : Nat
  /-- Everything printed on standard output. -/
  out : String
  /-- Everything printed on standard error. -/
  err : String
deriving DecidableEq, Repr

/-- What a run has done so far. -/
structure Progress where
  /-- The query with its memo. -/
  query : Query
  /-- The warnings shown. -/
  warnings : WarningLog
  /-- What was printed on standard output. -/
  out : String
  /-- What was printed on standard error. -/
  err : String
  /-- The number of expressions that did not compile. -/
  failures : Nat
deriving DecidableEq, Repr

namespace Progress

/-- A run that begins with a memo. -/
def start (memo : Memo) : Progress := ⟨⟨memo⟩, .empty, "", "", 0⟩

/-- Print a text on standard output. -/
def print (progress : Progress) (text : String) : Progress :=
  { progress with out := progress.out ++ text }

/-- Show a warning, if it was not shown before. -/
def warn (progress : Progress) (component message : String) : Progress :=
  let warned := progress.warnings.warn component message
  { progress with warnings := warned.1, err := progress.err ++ warned.2 }

/-- Print the segments of one selector, or warn that it cannot be read. -/
def showSegments (progress : Progress) (selector : String) : Progress :=
  match Segment.readAll selector with
  | .error error => progress.warn "segments" error.message
  | .ok segments =>
    let record : Json.Value :=
      .object [("chunk", .string selector), ("segments", Segment.chainValue segments)]
    progress.print (record.pretty ++ "\n")

/-- The end of a run that nothing stopped. -/
def conclude (progress : Progress) (total : Nat) : Outcome :=
  if progress.failures = 0 then ⟨0, progress.out, progress.err⟩
  else
    let failure := Failure.someNotCompiled progress.failures total
    ⟨1, progress.out, progress.err ++ failure.report⟩

/-- The end of a run that a failure stopped. -/
def stop (progress : Progress) (failure : Failure) : Outcome :=
  ⟨1, progress.out, progress.err ++ failure.report⟩

end Progress

/-- The line for an expression and its path. -/
def resultLine (json : Bool) (expression path : String) : String :=
  if json then
    let record : Json.Value := .object [("selector", .string expression), ("xpath", .string path)]
    record.compact ++ "\n"
  else
    Style.dim.paint expression ++ " " ++ Style.bold.paint "=>" ++ " " ++ Style.green.paint path ++
      "\n"

/-- Compile the expressions that are left. The first that does not compile stops the run, unless it
is to go on. -/
def compileAll (options : Options) (progress : Progress) :
    List String → Progress × Option Failure
  | [] => (progress, none)
  | expression :: rest =>
    let progress :=
      if options.segments ∧ options.language = .css then
        (selectorsOf expression).foldl Progress.showSegments progress
      else progress
    let compiled := progress.query.compile expression options.language
    let progress := { progress with query := compiled.2 }
    match compiled.1 with
    | .ok path => compileAll options (progress.print (resultLine options.json expression path)) rest
    | .error error =>
      if options.keepGoing then
        let warned := progress.warn "query" error.message
        compileAll options { warned with failures := warned.failures + 1 } rest
      else (progress, some (.notCompiled expression error))

/-- Begin a run with the content of the memo file. A file that does not exist is an empty memo. A
JSON text that is no memo is reported and counts as an empty one. -/
def begin (path : String) (content : Except Fault String) : Except Failure Progress :=
  match content with
  | .error .missing => .ok (.start .empty)
  | .error fault => .error (.unreadable path fault)
  | .ok text =>
    match Json.Value.parse? text with
    | none => .error (.notJson path)
    | some value =>
      match Memo.ofValue value with
      | .ok memo => .ok (.start memo)
      | .error rejection =>
        .ok ((Progress.start .empty).warn "cache"
          ("ignoring " ++ path ++ ": " ++ rejection.message))

/-- What is left of a run once its expressions are compiled. -/
inductive Ending where
  /-- Nothing. -/
  | done (outcome : Outcome)
  /-- A text must be written to a file; the outcome depends on whether that succeeds. -/
  | save (path text : String) (outcome : Except Fault Unit → Outcome)

/-- Compile the expressions of a run that has begun. -/
def Progress.finish (progress : Progress) (options : Options) : Ending :=
  match compileAll options progress options.selectors, options.cache with
  | (progress, some failure), _ => .done (progress.stop failure)
  | (progress, none), none => .done (progress.conclude options.selectors.length)
  | (progress, none), some path =>
    .save path progress.query.memo.toValue.pretty fun written ↦
      match written with
      | .ok () => progress.conclude options.selectors.length
      | .error fault => progress.stop (.unwritable path fault)

/-- A run, given what reading the memo file gives. -/
def execute (options : Options) (content : String → Except Fault String) : Ending :=
  match options.cache with
  | none => (Progress.start .empty).finish options
  | some path =>
    match begin path (content path) with
    | .error failure => .done ((Progress.start .empty).stop failure)
    | .ok progress => progress.finish options

/-- A run in a directory: its outcome, and the files afterwards. -/
def run (options : Options) (files : Files) : Outcome × Files :=
  match execute options files.readText with
  | .done outcome => (outcome, files)
  | .save path text outcome =>
    match files.writeText path text with
    | .ok files => (outcome (.ok ()), files)
    | .error fault => (outcome (.error fault), files)

/-- The line that `--version` prints. -/
def versionLine : String := "csspath 0.1.0\n"

/-- The text that `--help` prints. -/
def helpText : String :=
  "Compile CSS selectors to XPath\n\nUsage: csspath [OPTIONS] <SELECTORS>...\n\nOptions:\n" ++
    "  -t, --type <TYPE>    Language of the input: css or xpath\n" ++
    "  -c, --cache <FILE>   JSON file of compiled selectors, read first and written back\n" ++
    "  -k, --keep-going     Report selectors that fail and go on\n" ++
    "  -s, --segments       Print the segments of every selector as JSON\n" ++
    "  -j, --json           Print one JSON record per selector\n" ++
    "  -h, --help           Print this text\n" ++
    "  -V, --version        Print the version\n"

/-- The program in a directory: the outcome for its arguments, and the files afterwards. Wrong
arguments give status 2 and change nothing. -/
def invoke (arguments : List String) (files : Files) : Outcome × Files :=
  match Request.ofArguments arguments with
  | .error error => (⟨2, "", error.message ++ "\n"⟩, files)
  | .ok .version => (⟨0, versionLine, ""⟩, files)
  | .ok .help => (⟨0, helpText, ""⟩, files)
  | .ok (.compile options) => run options files

end SelectorCompiler.CommandLine
