import Lakehouse.Declaration.Access
import Lakehouse.Settings

namespace Lakehouse

namespace WorkspacePath

-- The name of a file after its last slash or backslash.
def fileName (source : List Char) : List Char :=
  (source.reverse.takeWhile fun c => c != '/' && c != '\\').reverse

-- What follows the first occurrence of a needle.
def afterFirst? (needle : List Char) : List Char → Option (List Char)
  | [] => none
  | c :: rest =>
    if needle.isPrefixOf (c :: rest) then some ((c :: rest).drop needle.length)
    else afterFirst? needle rest

-- The explicit path; else the file's name in the directory; else what follows the directory `marker`
-- in the source, put under the root.
def resolve? (explicit directory : Option String) (source marker root : String) : Option String :=
  match explicit, directory with
  | some path, _ => some path
  | none, some directory =>
    let directory := if directory.toList.getLast? == some '/' then directory else directory ++ "/"
    some (directory ++ String.ofList (fileName source.toList))
  | none, none =>
    (afterFirst? s!"/{marker}/".toList source.toList).map fun rest => root ++ String.ofList rest

end WorkspacePath

structure Notebook where
  source : String
  path : Option String
  directory : Option String
  language : Option String
  accessControls : List AccessControl
  resourceName : Option String
  options : Options
  deriving DecidableEq, Repr, Inhabited

namespace Notebook

def codec : Codec Notebook :=
  .record
    (.cons (.required "source" .text) <|
     .cons (.optional "path" .text) <|
     .cons (.optional "dirpath" .text) <|
     .cons (.optional "language" .text) <|
     .cons AccessControl.field <|
     .cons (.optional "resource_name" .text) <|
     .cons Options.field .nil)
    (fun (source, path, directory, language, accessControls, resourceName, options, ()) =>
      { source, path, directory, language, accessControls, resourceName, options })
    (fun n => (n.source, n.path, n.directory, n.language, n.accessControls, n.resourceName,
      n.options, ()))

def resolvedPath? (settings : Settings) (n : Notebook) : Option String :=
  WorkspacePath.resolve? n.path n.directory n.source "notebooks" settings.workspaceRoot

end Notebook

structure WorkspaceFile where
  source : Option String
  contentBase64 : Option String
  path : Option String
  directory : Option String
  accessControls : List AccessControl
  resourceName : Option String
  options : Options
  deriving DecidableEq, Repr, Inhabited

namespace WorkspaceFile

def codec : Codec WorkspaceFile :=
  .record
    (.cons (.optional "source" .text) <|
     .cons (.optional "content_base64" .text) <|
     .cons (.optional "path" .text) <|
     .cons (.optional "dirpath" .text) <|
     .cons AccessControl.field <|
     .cons (.optional "resource_name" .text) <|
     .cons Options.field .nil)
    (fun (source, contentBase64, path, directory, accessControls, resourceName, options, ()) =>
      { source, contentBase64, path, directory, accessControls, resourceName, options })
    (fun f => (f.source, f.contentBase64, f.path, f.directory, f.accessControls, f.resourceName,
      f.options, ()))

-- Without a source there is no file name to put into a directory.
def resolvedPath? (settings : Settings) (f : WorkspaceFile) : Option String :=
  let source := f.source.getD ""
  WorkspacePath.resolve? f.path (if source.isEmpty then none else f.directory) source
    "workspacefiles" settings.workspaceRoot

end WorkspaceFile

end Lakehouse
