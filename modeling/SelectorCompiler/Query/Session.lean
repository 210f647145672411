import SelectorCompiler.Query.Basic

/-!
# Sessions

A session works on several queries, each with a name. Commands are data, so that sessions are
lists of them. A query that is named for the first time is a new one.

Specification §§6 and 10.5.
-/

namespace SelectorCompiler

namespace Query

/-- A command on a query. -/
inductive Command where
  /-- Begin anew. -/
  | reset
  /-- Begin anew with a memo of these entries. -/
  | resume (entries : List (String × String))
  /-- Compile an expression. -/
  | compile (expression : String) (language : Language)
  /-- Compile an expression in the language that a free text asks for. -/
  | compileAs (expression token : String)
  /-- List the memo. -/
  | list
  /-- Replace the memo by these entries. -/
  | replace (entries : List (String × String))
  /-- Replace the memo by what a JSON value describes. -/
  | replaceFromValue (value : Json.Value)
  /-- Look a selector up in the memo. -/
  | find (selector : String)
  /-- The size of the memo. -/
  | size
  /-- Give the memo away and begin anew with it. -/
  | handOver
  /-- Store a copy of the query under another name. -/
  | copyTo (name : String)

/-- What a command answers. -/
inductive Answer where
  /-- The command is done. -/
  | done
  /-- The path of an expression, or why there is none. -/
  | compiled (result : Except CompileError String)
  /-- The entries of a memo in order. -/
  | entries (entries : List (String × String))
  /-- The path that was found in the memo, if any. -/
  | path (found : Option String)
  /-- The size of the memo, and whether it is empty. -/
  | size (count : Nat) (empty : Bool)
  /-- The JSON value is no memo. -/
  | rejected (rejection : Rejection)

/-- Perform a command. Copying changes nothing in the query itself. -/
def perform (query : Query) : Command → Query × Answer
  | .reset => (new, .done)
  | .resume entries => (⟨.ofList entries⟩, .done)
  | .compile expression language =>
    let compiled := query.compile expression language
    (compiled.2, .compiled compiled.1)
  | .compileAs expression token =>
    let compiled := query.compile expression (.ofToken token)
    (compiled.2, .compiled compiled.1)
  | .list => (query, .entries query.memo.entries)
  | .replace entries => (⟨.ofList entries⟩, .done)
  | .replaceFromValue value =>
    match Memo.ofValue value with
    | .ok memo => (⟨memo⟩, .done)
    | .error rejection => (query, .rejected rejection)
  | .find selector => (query, .path (query.memo.get? selector))
  | .size => (query, .size query.memo.size query.memo.isEmpty)
  | .handOver => (query, .entries query.memo.entries)
  | .copyTo _ => (query, .done)

end Query

/-- Queries by name. -/
structure Session where
  /-- The queries that were named so far. -/
  queries : OrderedMap String Query

namespace Session

/-- A session that has named no query yet. -/
def new : Session := ⟨.empty⟩

/-- The query with a name. -/
def query (session : Session) (name : String) : Query :=
  (session.queries.get? name).getD .new

/-- Perform a command on the query with a name. -/
def perform (session : Session) (name : String) (command : Query.Command) :
    Session × Query.Answer :=
  let performed := (session.query name).perform command
  let queries := session.queries.insert name performed.1
  match command with
  | .copyTo other => (⟨queries.insert other performed.1⟩, performed.2)
  | _ => (⟨queries⟩, performed.2)

end Session

end SelectorCompiler
