import SelectorCompiler.CommandLine.Run

/-!
# The program

The command line program: it reads and writes the memo file and prints what a run printed.

Specification §10.4.
-/

namespace SelectorCompiler.CommandLine

/-- The fault that an error of the system stands for. Its number may be given with the sign
changed. -/
def systemFault : IO.Error → Fault
  | .noFileOrDirectory .. => .missing
  | .inappropriateType _ code reason =>
    if code = 21 ∨ 0 - code = 21 then .isFolder
    else if code = 20 ∨ 0 - code = 20 then .notFolder
    else .other reason
  | error => .other error.toString

/-- The text of a file. -/
def readFile (path : String) : IO (Except Fault String) := do
  match ← (IO.FS.readBinFile path).toBaseIO with
  | .error error => return .error (systemFault error)
  | .ok content =>
    match String.fromUTF8? content with
    | some text => return .ok text
    | none => return .error .notText

/-- Write a text to a file. -/
def writeFile (path text : String) : IO (Except Fault Unit) := do
  match ← (IO.FS.writeFile path text).toBaseIO with
  | .error error => return .error (systemFault error)
  | .ok () => return .ok ()

/-- Print what a run printed. -/
def present (outcome : Outcome) : IO UInt32 := do
  (← IO.getStdout).putStr outcome.out
  (← IO.getStderr).putStr outcome.err
  return outcome.exit.toUInt32

/-- A run on the files of the system. -/
def perform (options : Options) : IO Outcome := do
  let content ← match options.cache with
    | none => pure (.error .missing)
    | some path => readFile path
  match execute options (fun _ ↦ content) with
  | .done outcome => return outcome
  | .save path text outcome => return outcome (← writeFile path text)

end SelectorCompiler.CommandLine

open SelectorCompiler.CommandLine in
/-- Do what the arguments ask for. -/
def main (arguments : List String) : IO UInt32 := do
  match Request.ofArguments arguments with
  | .error error => present ⟨2, "", error.message ++ "\n"⟩
  | .ok .version => present ⟨0, versionLine, ""⟩
  | .ok .help => present ⟨0, helpText, ""⟩
  | .ok (.compile options) => present (← perform options)
