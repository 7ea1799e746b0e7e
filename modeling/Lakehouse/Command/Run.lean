import Lakehouse.Command
import Lakehouse.Document
import Lakehouse.FileSystem.Access
import Lakehouse.Graph.Listing
import Lakehouse.Stack.Reader

namespace Lakehouse

namespace Stack

def fileName : String := "stack.yaml"

-- The stack that a new project starts with.
def template : String :=
  "name: my-stack\n" ++
  "description: \"Managed by lakestack\"\n" ++
  "\n" ++
  "settings:\n" ++
  "  workspace_root: /.laktory/\n" ++
  "\n" ++
  "providers:\n" ++
  "  databricks:\n" ++
  "    host: $\x7bvar.DATABRICKS_HOST\x7d\n" ++
  "    token: $\x7bvar.DATABRICKS_TOKEN\x7d\n" ++
  "\n" ++
  "resources: \x7b\x7d\n"

-- The graph of a stack file with the given content.
def load (content : String) : Except Failure Graph := do
  let some stack := Stack.read? content | throw .notAStack
  if !stack.violations.isEmpty then throw (.invalid stack.violations)
  stack.compile.mapError .compile

end Stack

def unlines (lines : List String) : String := String.join (lines.map (· ++ "\n"))

namespace Command

variable {m : Type → Type} [Monad m]

-- The output of a command, or why there is none.
abbrev Run (m : Type → Type) := ExceptT Failure m

def attempt {α : Type} (x : m (Except FileError α)) (failure : FileError → Failure) : Run m α := do
  match ← ExceptT.lift x with
  | .ok a => return a
  | .error e => throw (failure e)

def runInit (files : FileAccess m) (directory : String) : Run m String := do
  let target := Path.join directory Stack.fileName
  if ← files.exists? target then throw (.alreadyThere target)
  attempt (files.write target Stack.template.toUTF8) (.unwritable target)
  return unlines [s!"Initialized lakestack project at {directory}", s!"  Created: {target}"]

def loadGraph (files : FileAccess m) (file : String) : Run m Graph := do
  let bytes ← attempt (files.read file) (.unreadable file)
  match String.fromUTF8? bytes with
  | some content => ExceptT.mk (return Stack.load content)
  | none => throw (.unreadable file .notText)

def runValidate (files : FileAccess m) (file : String) : Run m String := do
  return unlines [(← loadGraph files file).summary]

def runGraph (files : FileAccess m) (file : String) (json : Bool) : Run m String := do
  let g ← loadGraph files file
  return if json then Json.pretty g.encode ++ "\n" else unlines g.listing

-- Whether a file is there and has the given fingerprint.
def isUnchanged (files : FileAccess m) (target fingerprint : String) : Run m Bool := do
  if ← files.exists? target then
    let bytes ← attempt (files.read target) (.incomparable target)
    return Digest.ofFile bytes == fingerprint
  else return false

-- Puts the document of a graph into its directory, unless it is there already.
def place (files : FileAccess m) (o : EmitOptions) (g : Graph) (d : Document) : Run m String := do
  let text := d.render
  let target := Path.join o.directory d.fileName
  let fingerprint := Digest.ofText text
  let unchanged ← isUnchanged files target fingerprint
  if o.check then
    if unchanged then return unlines [s!"OK: {target} is up to date ({fingerprint})"]
    else throw (.outOfDate target)
  else if unchanged then return unlines [s!"Unchanged: {target}"]
  else
    attempt (files.makeDirectories o.directory) (.noDirectory o.directory)
    attempt (files.write target text.toUTF8) (.unwritable target)
    return unlines [s!"Emitted: {target} ({g.resources.length} resources, {fingerprint})"]

def runEmit (files : FileAccess m) (o : EmitOptions) : Run m String := do
  let g ← loadGraph files o.file
  match g.emit o.backend with
  | .error e => throw (.emit e)
  | .ok d => if o.toOutput then return d.render else place files o g d

def run (files : FileAccess m) : Command → Run m String
  | .init directory => runInit files directory
  | .validate file => runValidate files file
  | .graph file json => runGraph files file json
  | .emit options => runEmit files options

end Command

end Lakehouse
