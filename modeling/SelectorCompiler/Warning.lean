import SelectorCompiler.Terminal

/-!
# Warnings

A warning names a part of the program and says what is wrong. The same line is shown once only,
until the record of shown lines is cleared.

Specification §10.3.
-/

namespace SelectorCompiler

/-- The line of a warning. -/
def warningLine (component message : String) : String :=
  "[csspath " ++ component ++ "] ⚠ " ++ message

/-- The warnings shown so far. -/
structure WarningLog where
  /-- Their lines, the latest first. -/
  lines : List String
deriving DecidableEq, Repr

namespace WarningLog

/-- No warning was shown yet. -/
def empty : WarningLog := ⟨[]⟩

/-- A step of a history of warnings. -/
inductive Command where
  /-- Warn. -/
  | warn (component message : String)
  /-- Forget what was shown. -/
  | clear
deriving DecidableEq, Repr

/-- Record a warning; also what is printed for it, which is nothing when its line was shown
before. -/
def warn (log : WarningLog) (component message : String) : WarningLog × String :=
  let line := warningLine component message
  if line ∈ log.lines then (log, "") else (⟨line :: log.lines⟩, Style.yellow.paint line ++ "\n")

/-- Perform a step; also what it prints. -/
def perform (log : WarningLog) : Command → WarningLog × String
  | .warn component message => log.warn component message
  | .clear => (empty, "")

end WarningLog

end SelectorCompiler
