import Lakehouse.Command.Report

namespace Lakehouse

def FileError.ofSystem : IO.Error → FileError
  | .noFileOrDirectory .. => .notFound
  | .alreadyExists .. => .alreadyExists
  | .inappropriateType _ code _ => if code == 21 then .isADirectory else .notADirectory
  | e => .other (toString e)

def FileError.catching {α : Type} (x : IO α) : IO (Except FileError α) := do
  try
    return .ok (← x)
  catch e => return .error (FileError.ofSystem e)

def isDirectory (path : String) : IO Bool := do
  try
    (← IO.FS.realPath path).isDir
  catch _ => return false

-- Makes one directory, unless it is there.
def makeDirectory (path : String) : IO Unit := do
  try
    IO.FS.createDir path
  catch e => if !(← isDirectory path) then throw e

-- Makes the directories above only if they are not there.
def makeDirectories (path : String) : IO Unit := do
  try
    makeDirectory path
  catch e =>
    match e with
    | .noFileOrDirectory .. =>
      IO.FS.createDirAll (Path.parent path)
      makeDirectory path
    | e => throw e

def machineFiles : FileAccess IO where
  exists? path := do
    return match ← FileError.catching (IO.FS.realPath path) with
      | .ok _ => true
      | .error _ => false
  read path := FileError.catching (IO.FS.readBinFile path)
  write path content := FileError.catching (IO.FS.writeBinFile path content)
  makeDirectories path := FileError.catching (makeDirectories path)

end Lakehouse

def main (args : List String) : IO UInt32 := do
  let report ← Lakehouse.Report.ofArguments Lakehouse.machineFiles args
  IO.print report.stdout
  IO.eprint report.stderr
  return report.code
