namespace Lakehouse

inductive FileError where
  | notFound
  | alreadyExists
  | notADirectory
  | isADirectory
  | notText
  | other (message : String)
  deriving DecidableEq, Repr, Inhabited

def FileError.message : FileError → String
  | notFound => "No such file or directory (os error 2)"
  | alreadyExists => "File exists (os error 17)"
  | notADirectory => "Not a directory (os error 20)"
  | isADirectory => "Is a directory (os error 21)"
  | notText => "stream did not contain valid UTF-8"
  | other message => message

namespace Path

-- A path inside the directory of another one.
def join (directory name : String) : String :=
  if directory.isEmpty || directory.toList.getLast? == some '/' then directory ++ name
  else directory ++ "/" ++ name

-- The names that a path goes through. Repeated slashes lead nowhere; a point is a name like any other.
def names (path : String) : List String :=
  ((path.toList.splitOn '/').map String.ofList).filter fun name => !name.isEmpty

def isAbsolute (path : String) : Bool := path.toList.head? == some '/'

-- Whether a path ends in a slash, so that it can only stand for a directory.
def namesDirectory (path : String) : Bool := path.toList.getLast? == some '/'

-- Whether points, and nothing else, are left of a path.
def arePoints (names : List String) : Bool := !names.isEmpty && names.all (· == ".")

-- The path of the directory that a path lies in, by its last name that is no point.
def parent (path : String) : String :=
  let strip := List.dropWhile (· == ".")
  let above := (strip (strip (names path).reverse).tail).reverse
  (if isAbsolute path then "/" else "") ++ "/".intercalate above

end Path

-- The names that lead to a place from the working directory, the last one first. The root of all
-- paths is called `/`.
abbrev Location := List String

namespace Location

def working : Location := []

def root : Location := ["/"]

def ofStart (path : String) : Location := if Path.isAbsolute path then root else working

-- Directories that are always there: the working directory, the root, and what lies above.
def isFixed (l : Location) : Bool := l == root || l.all (· == "..")

def parent : Location → Location
  | [] => [".."]
  | name :: rest =>
    if name == ".." then ".." :: name :: rest
    else if name == "/" then name :: rest
    else rest

def enter (l : Location) (name : String) : Location :=
  if name == "." then l
  else if name == ".." then l.parent
  else name :: l

end Location

inductive Entry where
  | file (content : ByteArray)
  | directory
  deriving Inhabited

-- Of two entries at one location the first one counts.
structure FileSystem where
  entries : List (Location × Entry)
  deriving Inhabited

namespace FileSystem

def empty : FileSystem := ⟨[]⟩

def entryAt? (fs : FileSystem) (l : Location) : Option Entry :=
  if l.isFixed then some .directory else fs.entries.lookup l

def put (fs : FileSystem) (l : Location) (e : Entry) : FileSystem := ⟨(l, e) :: fs.entries⟩

def erase (fs : FileSystem) (l : Location) : FileSystem := ⟨fs.entries.filter (·.1 != l)⟩

-- The content of the file at a location.
def content? (fs : FileSystem) (l : Location) : Option ByteArray :=
  match fs.entryAt? l with
  | some (.file content) => some content
  | _ => none

-- One can only go on from a directory.
def step (fs : FileSystem) (l : Location) (name : String) : Except FileError Location :=
  match fs.entryAt? l with
  | some .directory => .ok (l.enter name)
  | some (.file _) => .error .notADirectory
  | none => .error .notFound

-- Where a path leads; there need not be anything yet.
def locate (fs : FileSystem) (path : String) : Except FileError Location :=
  if path.isEmpty then .error .notFound
  else (Path.names path).foldlM fs.step (Location.ofStart path)

def find (fs : FileSystem) (path : String) : Except FileError Entry := do
  match fs.entryAt? (← fs.locate path) with
  | some (.file content) =>
    if Path.namesDirectory path then .error .notADirectory else .ok (.file content)
  | some .directory => .ok .directory
  | none => .error .notFound

def exists? (fs : FileSystem) (path : String) : Bool :=
  match fs.find path with
  | .ok _ => true
  | .error _ => false

def read (fs : FileSystem) (path : String) : Except FileError ByteArray := do
  match ← fs.find path with
  | .file content => .ok content
  | .directory => .error .isADirectory

-- Replaces a file, or makes one in a directory that is there.
def write (fs : FileSystem) (path : String) (content : ByteArray) : Except FileError FileSystem := do
  let l ← fs.locate path
  match fs.entryAt? l with
  | some .directory => .error .isADirectory
  | some (.file _) | none =>
    if Path.namesDirectory path then .error .isADirectory else .ok (fs.put l (.file content))

-- Makes the directories along the names from a location on. Those that are made stay, even if there is
-- a file in the way further on; `made` says whether one had to be made before. What only points follow
-- is not made: it has to be a directory already.
def makeAlong (fs : FileSystem) (l : Location) (made : Bool) :
    List String → Except FileError Unit × FileSystem
  | [] => (.ok (), fs)
  | name :: rest =>
    let next := l.enter name
    if Path.arePoints rest then ((rest.foldlM fs.step next).map fun _ => (), fs)
    else match fs.entryAt? next with
    | some .directory => fs.makeAlong next made rest
    | some (.file _) =>
      (.error (if made || rest.isEmpty then .alreadyExists else .notADirectory), fs)
    | none => (fs.put next .directory).makeAlong next true rest

-- Makes a directory, and those that it lies in.
def makeAll (fs : FileSystem) (path : String) : Except FileError Unit × FileSystem :=
  fs.makeAlong (Location.ofStart path) false (Path.names path)

def makeDirectories (fs : FileSystem) (path : String) : Except FileError FileSystem :=
  let (result, fs) := fs.makeAll path
  result.map fun () => fs

-- Removes a file.
def remove (fs : FileSystem) (path : String) : Except FileError FileSystem := do
  let l ← fs.locate path
  match ← fs.find path with
  | .file _ => .ok (fs.erase l)
  | .directory => .error .isADirectory

end FileSystem

end Lakehouse
