import SelectorCompiler.Language

/-!
# Command line arguments

Arguments are read from left to right, and the first that is wrong ends the reading. Options and
selectors may be mixed; after `--` everything is a selector, and so is a lone `-`. Short flags can
be bundled; the value of an option follows it in the same argument or is the next one.

Specification §10.4.
-/

namespace SelectorCompiler.CommandLine

/-- An option that is given or not. -/
inductive Flag where
  | keepGoing
  | segments
  | json
deriving DecidableEq, Repr

/-- An option with a value. -/
inductive Setting where
  | language
  | cache
deriving DecidableEq, Repr

/-- What a run is asked to do. -/
structure Options where
  /-- The expressions to compile. -/
  selectors : List String
  /-- Their language. -/
  language : Language
  /-- The path of the file that holds the memo. -/
  cache : Option String
  /-- Go on after an expression that does not compile. -/
  keepGoing : Bool
  /-- Print the segments of every selector. -/
  segments : Bool
  /-- Print one JSON record for each expression. -/
  json : Bool
deriving DecidableEq, Repr

/-- What the arguments ask for. -/
inductive Request where
  | version
  | help
  | compile (options : Options)
deriving DecidableEq, Repr

/-- What is wrong with the arguments. -/
inductive UsageError where
  /-- No selector is given. -/
  | noSelector
  /-- There is no such option. -/
  | unknownOption (argument : String)
  /-- A flag is given twice. -/
  | repeatedFlag (flag : Flag)
  /-- An option is given twice. -/
  | repeatedSetting (setting : Setting)
  /-- A flag is given a value. -/
  | unexpectedValue (argument : String)
  /-- An option is given no value. -/
  | missingValue (setting : Setting)
  /-- The value of an option is not one that it takes. -/
  | invalidValue (setting : Setting) (value : String)
deriving DecidableEq, Repr

/-- The long name of a flag. -/
def Flag.name : Flag → String
  | .keepGoing => "--keep-going"
  | .segments => "--segments"
  | .json => "--json"

/-- The long name of an option. -/
def Setting.name : Setting → String
  | .language => "--type"
  | .cache => "--cache"

/-- The line that tells a user about the error. -/
def UsageError.message : UsageError → String
  | .noSelector => "error: no selector is given"
  | .unknownOption argument => "error: there is no option '" ++ argument ++ "'"
  | .repeatedFlag flag => "error: '" ++ flag.name ++ "' is given twice"
  | .repeatedSetting setting => "error: '" ++ setting.name ++ "' is given twice"
  | .unexpectedValue argument => "error: '" ++ argument ++ "' takes no value"
  | .missingValue setting => "error: '" ++ setting.name ++ "' needs a value"
  | .invalidValue setting value => "error: '" ++ value ++ "' is no value of '" ++ setting.name ++ "'"

/-! ## Names of options -/

/-- What the name of an option stands for. -/
inductive Meaning where
  | flag (flag : Flag)
  | setting (setting : Setting)
  | version
  | help
deriving DecidableEq, Repr

/-- The option with a one-letter name. -/
def Meaning.ofLetter? : Char → Option Meaning
  | 'k' => some (.flag .keepGoing)
  | 's' => some (.flag .segments)
  | 'j' => some (.flag .json)
  | 't' => some (.setting .language)
  | 'c' => some (.setting .cache)
  | 'V' => some .version
  | 'h' => some .help
  | _ => none

/-- The option with a long name. -/
def Meaning.ofWord? (word : String) : Option Meaning :=
  if word = "keep-going" then some (.flag .keepGoing)
  else if word = "segments" then some (.flag .segments)
  else if word = "json" then some (.flag .json)
  else if word = "type" then some (.setting .language)
  else if word = "cache" then some (.setting .cache)
  else if word = "version" then some .version
  else if word = "help" then some .help
  else none

/-- An argument by its form. -/
inductive Argument where
  /-- A selector, or the value of an option. -/
  | plain (text : String)
  /-- The mark after which everything is a selector. -/
  | separator
  /-- A long name, with the value after an equals sign. -/
  | long (word : String) (value : Option String)
  /-- One-letter names in a row. -/
  | short (letters : List Char)
deriving DecidableEq, Repr

/-- The form of an argument. -/
def Argument.ofText (text : String) : Argument :=
  match text.toList with
  | ['-', '-'] => .separator
  | '-' :: '-' :: word =>
    match word.dropWhile (· != '=') with
    | [] => .long (String.ofList word) none
    | _ :: value => .long (String.ofList (word.takeWhile (· != '='))) (some (String.ofList value))
  | '-' :: letter :: letters => .short (letter :: letters)
  | _ => .plain text

/-! ## Reading the arguments -/

/-- What the arguments read so far say. -/
structure Draft where
  /-- The selectors in order. -/
  selectors : List String
  /-- The flags that were given. -/
  flags : List Flag
  /-- The language that was given. -/
  language : Option Language
  /-- The path that was given. -/
  cache : Option String
deriving DecidableEq, Repr

/-- What one argument leads to. -/
inductive Next where
  /-- Read on. -/
  | more (draft : Draft)
  /-- The next argument must be the value of this option. -/
  | value (setting : Setting) (draft : Draft)
  /-- Everything after this argument is a selector. -/
  | selectors (draft : Draft)
  /-- Nothing after this argument counts. -/
  | answer (request : Request)
deriving DecidableEq, Repr

namespace Draft

/-- Nothing was read yet. -/
def empty : Draft := ⟨[], [], none, none⟩

/-- Note selectors. -/
def addSelectors (draft : Draft) (selectors : List String) : Draft :=
  { draft with selectors := draft.selectors ++ selectors }

/-- Note a flag, which may be given once. -/
def addFlag (draft : Draft) (flag : Flag) : Except UsageError Draft :=
  if flag ∈ draft.flags then .error (.repeatedFlag flag)
  else .ok { draft with flags := flag :: draft.flags }

/-- Note the value of an option, which may be given once. The language must have this name, and the
path must not be empty. -/
def addSetting (draft : Draft) (setting : Setting) (value : String) : Except UsageError Draft :=
  match setting with
  | .language =>
    match draft.language, Language.ofName? value with
    | some _, _ => .error (.repeatedSetting setting)
    | none, none => .error (.invalidValue setting value)
    | none, some language => .ok { draft with language := some language }
  | .cache =>
    if draft.cache.isSome then .error (.repeatedSetting setting)
    else if value = "" then .error (.invalidValue setting value)
    else .ok { draft with cache := some value }

/-- Read one-letter names in a row. The first that takes a value takes the rest of the argument; an
equals sign before the value is not part of it. -/
def addLetters (draft : Draft) (argument : String) : List Char → Except UsageError Next
  | [] => .ok (.more draft)
  | letter :: rest =>
    match Meaning.ofLetter? letter, rest with
    | none, _ => .error (.unknownOption argument)
    | some .version, _ => .ok (.answer .version)
    | some .help, _ => .ok (.answer .help)
    | some (.flag flag), rest =>
      match draft.addFlag flag with
      | .error error => .error error
      | .ok draft => draft.addLetters argument rest
    | some (.setting setting), [] => .ok (.value setting draft)
    | some (.setting setting), '=' :: value =>
      (draft.addSetting setting (String.ofList value)).map .more
    | some (.setting setting), value => (draft.addSetting setting (String.ofList value)).map .more

/-- Read a long name with its value, if one stands in the same argument. -/
def addWord (draft : Draft) (argument word : String) (value : Option String) :
    Except UsageError Next :=
  match Meaning.ofWord? word, value with
  | none, _ => .error (.unknownOption argument)
  | some (.setting setting), some value => (draft.addSetting setting value).map .more
  | some (.setting setting), none => .ok (.value setting draft)
  | some _, some _ => .error (.unexpectedValue argument)
  | some .version, none => .ok (.answer .version)
  | some .help, none => .ok (.answer .help)
  | some (.flag flag), none => (draft.addFlag flag).map .more

/-- Read one argument. -/
def add (draft : Draft) (argument : String) : Except UsageError Next :=
  match Argument.ofText argument with
  | .plain text => .ok (.more (draft.addSelectors [text]))
  | .separator => .ok (.selectors draft)
  | .long word value => draft.addWord argument word value
  | .short letters => draft.addLetters argument letters

/-- Everything was read: there must be a selector. -/
def finish (draft : Draft) : Except UsageError Request :=
  if draft.selectors.isEmpty then .error .noSelector
  else
    .ok (.compile
      { selectors := draft.selectors
        language := draft.language.getD .css
        cache := draft.cache
        keepGoing := draft.flags.contains .keepGoing
        segments := draft.flags.contains .segments
        json := draft.flags.contains .json })

/-- Read the arguments that are left. -/
def read (draft : Draft) : List String → Except UsageError Request
  | [] => draft.finish
  | argument :: rest =>
    match draft.add argument, rest with
    | .error error, _ => .error error
    | .ok (.answer request), _ => .ok request
    | .ok (.selectors draft), rest => (draft.addSelectors rest).finish
    | .ok (.more draft), rest => draft.read rest
    | .ok (.value setting _), [] => .error (.missingValue setting)
    | .ok (.value setting draft), value :: rest =>
      match Argument.ofText value with
      | .plain value =>
        match draft.addSetting setting value with
        | .error error => .error error
        | .ok draft => draft.read rest
      | _ => .error (.missingValue setting)

end Draft

/-- What the arguments of the program ask for. -/
def Request.ofArguments (arguments : List String) : Except UsageError Request :=
  Draft.empty.read arguments

end SelectorCompiler.CommandLine
