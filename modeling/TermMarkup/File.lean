/-
Files as the command sees them: what reading, writing and printing may answer, for any kind of file
system, and folders, the file systems that are just a list of names and texts. A path is read from the
folder itself; what lies outside of it is not known, but for being a directory where the path only
goes up.
-/

namespace TermMarkup

/-- Why a file cannot be read or written, or a text not be printed. -/
inductive FileFault where
  | notFound
  | notDirectory
  | isDirectory
  | other (text : String)
  deriving DecidableEq, Repr

def FileFault.message : FileFault → String
  | notFound => "No such file or directory (os error 2)"
  | notDirectory => "Not a directory (os error 20)"
  | isDirectory => "Is a directory (os error 21)"
  | other text => text

/-- A file system, with the standard input and the standard output beside it. -/
structure FileSystem (m : Type → Type) where
  isPresent : String → m Bool
  read : String → m (Except FileFault String)
  write : String → String → m (Except FileFault Unit)
  standardInput : m (Except FileFault String)
  print : String → m (Except FileFault Unit)

/-- Files by name, and the text of the standard input. -/
structure Folder where
  files : List (String × String) := []
  standardInput : String := ""
  deriving DecidableEq, Repr

namespace Folder

/-- A place in a folder or outside of it. The names on the way stand innermost first. -/
inductive Place where
  | inside (names : List String)
  | outside
  deriving DecidableEq, Repr

/-- What is at a place. -/
inductive Entry where
  | file (text : String)
  | directory
  | nothing
  deriving DecidableEq, Repr

def pathOf (names : List String) : String :=
  String.intercalate "/" names.reverse

/-- What stands between the slashes of a path. -/
def segments : List Char → List (List Char)
  | [] => [[]]
  | c :: cs =>
    if c = '/' then [] :: segments cs else (segments cs).modifyHead (c :: ·)

/-- The names of a path: its parts but for empty ones and dots. -/
def partsOf (path : String) : List String :=
  ((segments path.toList).map String.ofList).filter fun part => !part.isEmpty && part != "."

/-- Whether a path can only name a directory. -/
def namesDirectory (path : String) : Bool :=
  match ((segments path.toList).map String.ofList).getLast? with
  | some last => last.isEmpty || last == "." || last == ".."
  | none => false

def entryAt (f : Folder) : Place → Entry
  | .outside => .directory
  | .inside [] => .directory
  | .inside names =>
    match f.files.find? fun file => partsOf file.1 == names.reverse with
    | some file => .file file.2
    | none =>
      if f.files.any fun file => names.reverse.isPrefixOf (partsOf file.1) then .directory
      else .nothing

/-- One step along a path. -/
def stepTo (f : Folder) (place : Place) (part : String) : Except FileFault Place :=
  match f.entryAt place with
  | .file _ => .error .notDirectory
  | .nothing => .error .notFound
  | .directory =>
    match place, part with
    | .outside, ".." => .ok .outside
    | .outside, _ => .error .notFound
    | .inside [], ".." => .ok .outside
    | .inside (_ :: names), ".." => .ok (.inside names)
    | .inside names, part => .ok (.inside (part :: names))

/-- The place that a path leads to, which need not hold anything. -/
def placeOf (f : Folder) (path : String) : Except FileFault Place :=
  if path.isEmpty then .error .notFound
  else
    (partsOf path).foldlM f.stepTo
      (if path.toList.head? == some '/' then .outside else .inside [])

/-- What a path leads to. -/
def lookup (f : Folder) (path : String) : Except FileFault Entry := do
  match f.entryAt (← f.placeOf path) with
  | .nothing => throw .notFound
  | .file text => if namesDirectory path then throw .notDirectory else return .file text
  | .directory => return .directory

def read (f : Folder) (path : String) : Except FileFault String := do
  match ← f.lookup path with
  | .file text => return text
  | _ => throw .isDirectory

/-- The files with another text for one of them, which is added if it is missing. -/
def put (name text : String) : List (String × String) → List (String × String)
  | [] => [(name, text)]
  | file :: files =>
    if partsOf file.1 == partsOf name then (file.1, text) :: files else file :: put name text files

def write (f : Folder) (path text : String) : Except FileFault Folder := do
  match ← f.placeOf path with
  | .outside => throw .isDirectory
  | .inside names =>
    if namesDirectory path || f.entryAt (.inside names) = .directory then
      throw .isDirectory
    return { f with files := put (pathOf names) text f.files }

/-- The files that are new or hold another text than before. -/
def changes (before after : Folder) : List (String × String) :=
  after.files.filter fun file => before.files.lookup file.1 != some file.2

/-- The folder as a file system, beside a standard output that takes every text. -/
def fileSystem : FileSystem (StateM Folder) where
  isPresent path := do
    return ((← get).lookup path).isOk
  read path := do
    return (← get).read path
  write path text := do
    match (← get).write path text with
    | .ok after => set after; return .ok ()
    | .error fault => return .error fault
  standardInput := do
    return .ok (← get).standardInput
  print _ := do
    return .ok ()

end Folder

end TermMarkup
