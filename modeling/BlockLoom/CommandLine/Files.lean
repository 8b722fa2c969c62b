import BlockLoom.Fields

/-!
Files as the program sees them. What it needs of a file system is to read a text
and to write one, each of which may fail for a stated reason. `Folder` is a file
system of its own that lives in memory.
-/

namespace BlockLoom.CommandLine

/-- Why a file cannot be read or written. -/
inductive FileError where
  | notFound
  | notDirectory
  | isDirectory
  /-- Any other reason, in the words of the system. -/
  | other (message : String)
  deriving DecidableEq, Repr

def FileError.message : FileError → String
  | .notFound => "No such file or directory (os error 2)"
  | .notDirectory => "Not a directory (os error 20)"
  | .isDirectory => "Is a directory (os error 21)"
  | .other message => message

structure FileAccess (m : Type → Type) where
  read : String → m (Except FileError String)
  write : String → String → m (Except FileError Unit)

/-! ## In memory -/

/-- The files of one directory and those below it, by their paths. -/
abbrev Folder := Fields String

namespace Folder

/-- The parts of a path between slashes. -/
def parts : List Char → List Char → List String
  | present, [] => [String.ofList present.reverse]
  | present, c :: rest =>
    if c = '/' then String.ofList present.reverse :: parts [] rest else parts (c :: present) rest

inductive Place where
  | file (path : String)
  | directory
  /-- No file yet, but a directory that could hold it. -/
  | vacant (path : String)
  | nowhere (error : FileError)

def isDirectory (folder : Folder) (path : List String) : Bool :=
  path.isEmpty ||
    folder.any fun entry => ("/".intercalate path ++ "/").toList.isPrefixOf entry.1.toList

def follow (folder : Folder) (path : List String) : List String → Place
  | [] => .directory
  | part :: rest =>
    if part.isEmpty || part == "." then follow folder path rest
    else if part == ".." then
      if path.isEmpty then .nowhere .notFound else follow folder path.dropLast rest
    else
      let next := path ++ [part]
      let name := "/".intercalate next
      if Fields.has folder name then if rest.isEmpty then .file name else .nowhere .notDirectory
      else if isDirectory folder next then follow folder next rest
      else if rest.isEmpty then .vacant name
      else .nowhere .notFound

/-- What a path leads to; only paths below the directory itself lead anywhere. -/
def place (folder : Folder) (path : String) : Place :=
  match path.toList with
  | [] => .nowhere .notFound
  | '/' :: _ => .nowhere .notFound
  | text => follow folder [] (parts [] text)

def readFile (folder : Folder) (path : String) : Except FileError String :=
  match place folder path with
  | .file name => .ok ((Fields.get? folder name).getD "")
  | .directory => .error .isDirectory
  | .vacant _ => .error .notFound
  | .nowhere error => .error error

def writeFile (folder : Folder) (path text : String) : Except FileError Folder :=
  match place folder path with
  | .file name | .vacant name => .ok (Fields.put folder name text)
  | .directory => .error .isDirectory
  | .nowhere error => .error error

def access : FileAccess (StateM Folder) where
  read path := do return readFile (← get) path
  write path text := do
    match writeFile (← get) path text with
    | .ok folder =>
      set folder
      return .ok ()
    | .error error => return .error error

end Folder

end BlockLoom.CommandLine
