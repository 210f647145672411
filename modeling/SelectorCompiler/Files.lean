import SelectorCompiler.OrderedMap
import SelectorCompiler.Text.Delimited

/-!
# Files

Files and folders as a finite map from places to what stands there. A path is a text with slashes.
It is followed from the root if it begins with a slash, and else from the working directory.

The system may refuse to read or to write at a place for reasons of its own, such as permissions or
a broken disk. These are part of the state, so every one of them is possible.
-/

namespace SelectorCompiler

/-- Why a file cannot be read or written. -/
inductive Fault where
  /-- Nothing stands at the path. -/
  | missing
  /-- The path goes through something that is not a folder. -/
  | notFolder
  /-- A folder stands at the path. -/
  | isFolder
  /-- The file does not hold UTF-8 text. -/
  | notText
  /-- Any other reason, in the words of the system. -/
  | other (reason : String)
deriving DecidableEq, Repr

/-- The line that tells a user about the fault. -/
def Fault.message : Fault → String
  | .missing => "No such file or directory (os error 2)"
  | .notFolder => "Not a directory (os error 20)"
  | .isFolder => "Is a directory (os error 21)"
  | .notText => "stream did not contain valid UTF-8"
  | .other reason => reason

/-- A place, by the names of the folders on the way from the root down, and the last name. -/
structure Location where
  /-- The names. -/
  names : List String
deriving DecidableEq, Repr

namespace Location

/-- The folder around everything. -/
def root : Location := ⟨[]⟩

/-- The place with this name in a folder. -/
def enter (folder : Location) (name : String) : Location :=
  ⟨folder.names ++ [name]⟩

/-- The folder around a place. That of the root is the root. -/
def parent (place : Location) : Location :=
  ⟨place.names.dropLast⟩

end Location

/-- What stands at a place. -/
inductive Node where
  | folder
  | file (content : ByteArray)

/-- What can be done at a place. -/
inductive Access where
  | read
  | write

/-- Places with what stands there. -/
structure Files where
  /-- The working directory. -/
  here : Location
  /-- The places that are taken. -/
  nodes : OrderedMap Location Node
  /-- What the system refuses at a place before anything is done there, and in which words. -/
  refusal? : Access → Location → Option String

/-- Where a path leads. -/
inductive Target where
  /-- To a folder. -/
  | folder (place : Location)
  /-- To a file. -/
  | file (place : Location) (content : ByteArray)
  /-- To a name that is free in its folder; slashes may follow the name. -/
  | free (place : Location) (slash : Bool)

/-- The place where a path ends. -/
def Target.place : Target → Location
  | .folder place => place
  | .file place _ => place
  | .free place _ => place

namespace Files

/-- A working directory without anything in it, and nothing that is refused. -/
def empty : Files := ⟨Location.root.enter "work", .empty, fun _ _ ↦ none⟩

/-- What stands at a place. The working directory and those around it are folders. -/
def get? (files : Files) (place : Location) : Option Node :=
  if place.names.isPrefixOf files.here.names then some .folder else files.nodes.get? place

/-- Put something at a place. -/
def put (files : Files) (place : Location) (node : Node) : Files :=
  { files with nodes := files.nodes.insert place node }

/-- Follow the components of a path from a folder on. -/
def follow (files : Files) (folder : Location) : List String → Except Fault Target
  | [] => .ok (.folder folder)
  | name :: rest =>
    if name = "" ∨ name = "." then files.follow folder rest
    else if name = ".." then files.follow folder.parent rest
    else
      let place := folder.enter name
      match files.get? place with
      | some .folder => files.follow place rest
      | some (.file content) => if rest = [] then .ok (.file place content) else .error .notFolder
      | none =>
        if rest.all (· == "") then .ok (.free place (!rest.isEmpty)) else .error .missing

/-- Where a path begins. -/
def origin (files : Files) (path : String) : Location :=
  if path.toList.head? = some '/' then .root else files.here

/-- Where a path leads. -/
def resolve (files : Files) (path : String) : Except Fault Target :=
  files.follow (files.origin path) (Text.pieces '/' path)

/-- The text of the file at a path. -/
def readText (files : Files) (path : String) : Except Fault String :=
  match files.resolve path with
  | .error fault => .error fault
  | .ok target =>
    match files.refusal? .read target.place with
    | some reason => .error (.other reason)
    | none =>
      match target with
      | .folder _ => .error .isFolder
      | .free _ _ => .error .missing
      | .file _ content =>
        match String.fromUTF8? content with
        | some text => .ok text
        | none => .error .notText

/-- Write a text to the file at a path. A name that is free becomes a file, unless a slash says
that it is a folder. -/
def writeText (files : Files) (path text : String) : Except Fault Files :=
  match files.resolve path with
  | .error fault => .error fault
  | .ok target =>
    match files.refusal? .write target.place with
    | some reason => .error (.other reason)
    | none =>
      match target with
      | .folder _ => .error .isFolder
      | .free _ true => .error .isFolder
      | .free place false => .ok (files.put place (.file text.toUTF8))
      | .file place _ => .ok (files.put place (.file text.toUTF8))

/-- The files below the working directory with their paths, in the order of these. -/
def listing (files : Files) : List (String × ByteArray) :=
  let contents := files.nodes.entries.filterMap fun entry ↦
    match entry.2 with
    | .folder => none
    | .file content =>
      if files.here.names.isPrefixOf entry.1.names then
        some (String.intercalate "/" (entry.1.names.drop files.here.names.length), content)
      else none
  contents.mergeSort fun a b ↦ decide (a.1 ≤ b.1)

/-- Make the folders on the way down, as far as nothing stands there. -/
def makeFolders (files : Files) (folder : Location) : List String → Files
  | [] => files
  | name :: rest =>
    if name = "" ∨ name = "." then files.makeFolders folder rest
    else
      let place := folder.enter name
      match files.get? place with
      | some _ => files.makeFolders place rest
      | none => (files.put place .folder).makeFolders place rest

/-- Make the folder at a path, and those on the way to it. -/
def addFolder (files : Files) (path : String) : Files :=
  files.makeFolders (files.origin path) (Text.pieces '/' path)

/-- Make the file at a path, and the folders on the way to it. -/
def addFile (files : Files) (path : String) (content : ByteArray) : Files :=
  let names := (Text.pieces '/' path).filter (fun name ↦ name != "" && name != ".")
  let folder := files.origin path
  (files.makeFolders folder names.dropLast).put ⟨folder.names ++ names⟩ (.file content)

end Files

end SelectorCompiler
