import Lakehouse.Emission.Field
import Lakehouse.FileSystem
import Lakehouse.Stack.Validation

namespace Lakehouse

structure EmitOptions where
  file : String
  backend : Backend
  directory : String
  -- Print the document, whatever else is asked for.
  toOutput : Bool
  -- Compare with the document that is there, and write nothing.
  check : Bool
  deriving DecidableEq, Repr

inductive Command where
  | init (directory : String)
  | validate (file : String)
  | graph (file : String) (json : Bool)
  | emit (options : EmitOptions)
  deriving DecidableEq, Repr

-- Why a command did not do what it was asked for.
inductive Failure where
  | unreadable (path : String) (e : FileError)
  | notAStack
  | invalid (violations : List Violation)
  | compile (e : CompileError)
  | emit (e : EmitError)
  | alreadyThere (path : String)
  -- The document that is there cannot be compared.
  | incomparable (path : String) (e : FileError)
  | outOfDate (path : String)
  | noDirectory (path : String) (e : FileError)
  | unwritable (path : String) (e : FileError)
  deriving DecidableEq, Repr

namespace Failure

-- A directory can be opened, but not read.
def incomparableMessage (path : String) (e : FileError) : String :=
  match e with
  | .isADirectory => s!"read error {path}: {e.message}"
  | _ => s!"cannot open {path}: {e.message}"

def message : Failure → String
  | unreadable path e => s!"failed to read {path}: {e.message}"
  | notAStack => "YAML parse error"
  | invalid violations => s!"{violations.length} validation error(s)"
  | compile e => s!"{e.message} (stage: {e.stage.text})"
  | emit e => e.message
  | alreadyThere path => s!"{path} already exists"
  | incomparable path e => incomparableMessage path e
  | outOfDate path => s!"{path} is out of date"
  | noDirectory path e => s!"cannot create {path}: {e.message}"
  | unwritable path e => s!"cannot write {path}: {e.message}"

-- Lines about single faults, before the message.
def details : Failure → List String
  | invalid violations => violations.map fun v => "  ERROR: " ++ v.message
  | _ => []

end Failure

end Lakehouse
