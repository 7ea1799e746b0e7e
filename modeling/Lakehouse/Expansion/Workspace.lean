import Lakehouse.Declaration.Workspace
import Lakehouse.Expansion.Access
/-!
Resources of notebooks and workspace files. Their path in the workspace is what tells them apart: the
id comes from it, and permissions point at it.
-/
namespace Lakehouse

namespace Expansion

-- Puts the path that was found among the properties.
def withPath (path : Option String) (properties : Properties) : Properties :=
  match path with
  | some path => Dict.insert properties "path" (.string path)
  | none => properties

end Expansion

def Notebook.expand (c : Context) (n : Notebook) : Except CompileError (List Resource) := do
  let path := n.resolvedPath? c.settings
  let id := Ident.derive n.resourceName "notebook" (path.getD n.source)
  let properties := Declaration.properties Notebook.codec n ["dirpath", "access_controls"]
  let primary := c.primary id .notebook (Expansion.withPath path properties) n.options
  return primary :: (← Expansion.permissions primary "notebook_path" "path" n.accessControls)

def WorkspaceFile.expand (c : Context) (f : WorkspaceFile) : Except CompileError (List Resource) := do
  let path := f.resolvedPath? c.settings
  let key := (path.or f.source).getD ""
  if key.isEmpty && f.resourceName.isNone then
    throw (.invalidDeclaration "workspace-file" .unlocatedWorkspaceFile)
  let id := Ident.derive f.resourceName "workspace-file" key
  if f.source.isNone && f.contentBase64.isNone then
    throw (.invalidDeclaration id .emptyWorkspaceFile)
  let properties := Declaration.properties WorkspaceFile.codec f ["dirpath", "access_controls"]
  let primary := c.primary id .workspaceFile (Expansion.withPath path properties) f.options
  return primary :: (← Expansion.permissions primary "workspace_file_path" "path" f.accessControls)

end Lakehouse
