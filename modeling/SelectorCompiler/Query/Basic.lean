import SelectorCompiler.Compilation.Path
import SelectorCompiler.Language
import SelectorCompiler.Memo.Basic
import SelectorCompiler.Text.Delimited

/-!
# Queries

A query compiles expressions and remembers the selectors it has compiled. A CSS expression is a
list of selectors with commas between them; its path is the union of their paths.

Specification §4.5 (Compiler). XPath 1.0 §3.3 (unions).
-/

namespace SelectorCompiler

/-- A compiler with its memo. -/
structure Query where
  /-- The selectors compiled so far. -/
  memo : Memo
deriving DecidableEq, Repr

/-- The selectors of a list, without the white space around them. -/
def selectorsOf (expression : String) : List String :=
  (Text.pieces ',' expression).map Text.trimString

/-- The paths of selectors one after another. A selector that the memo knows is not compiled again,
and one that compiles is stored at once. The first error ends the work; what was stored before it
stays. -/
def compileSelectors (memo : Memo) : List String → Except CompileError (List String) × Memo
  | [] => (.ok [], memo)
  | selector :: rest =>
    match memo.get? selector with
    | some path =>
      let later := compileSelectors memo rest
      (later.1.map (path :: ·), later.2)
    | none =>
      match compileSelector selector .descendant with
      | .error error => (.error error, memo)
      | .ok path =>
        let later := compileSelectors (memo.insert selector path) rest
        (later.1.map (path :: ·), later.2)

namespace Query

/-- A query that has compiled nothing yet. -/
def new : Query := ⟨.empty⟩

instance : Inhabited Query := ⟨new⟩

/-- Compile an expression. One in XPath is its own path. -/
def compile (query : Query) (expression : String) (language : Language) :
    Except CompileError String × Query :=
  match language with
  | .xpath => (.ok expression, query)
  | .css =>
    let compiled := compileSelectors query.memo (selectorsOf expression)
    (compiled.1.map (String.intercalate "|"), ⟨compiled.2⟩)

end Query

end SelectorCompiler
