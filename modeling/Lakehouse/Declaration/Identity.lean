import Lakehouse.Settings

namespace Lakehouse

structure Group where
  displayName : String
  allowClusterCreate : Option Bool
  workspaceAccess : Option Bool
  sqlAccess : Option Bool
  resourceName : Option String
  options : Options
  deriving DecidableEq, Repr, Inhabited

def Group.codec : Codec Group :=
  .record
    (.cons (.required "display_name" .text) <|
     .cons (.optional "allow_cluster_create" .flag) <|
     .cons (.optional "workspace_access" .flag) <|
     .cons (.optional "databricks_sql_access" .flag) <|
     .cons (.optional "resource_name" .text) <|
     .cons Options.field .nil)
    (fun (displayName, allowClusterCreate, workspaceAccess, sqlAccess, resourceName, options, ()) =>
      { displayName, allowClusterCreate, workspaceAccess, sqlAccess, resourceName, options })
    (fun g => (g.displayName, g.allowClusterCreate, g.workspaceAccess, g.sqlAccess, g.resourceName,
      g.options, ()))

structure User where
  userName : String
  displayName : Option String
  workspaceAccess : Option Bool
  -- Ids of groups, or placeholders for them.
  groupIds : List String
  roles : List String
  resourceName : Option String
  options : Options
  deriving DecidableEq, Repr, Inhabited

def User.codec : Codec User :=
  .record
    (.cons (.required "user_name" .text) <|
     .cons (.optional "display_name" .text) <|
     .cons (.optional "workspace_access" .flag) <|
     .cons (.list "group_ids" .text) <|
     .cons (.list "roles" .text) <|
     .cons (.optional "resource_name" .text) <|
     .cons Options.field .nil)
    (fun (userName, displayName, workspaceAccess, groupIds, roles, resourceName, options, ()) =>
      { userName, displayName, workspaceAccess, groupIds, roles, resourceName, options })
    (fun u => (u.userName, u.displayName, u.workspaceAccess, u.groupIds, u.roles, u.resourceName,
      u.options, ()))

structure ServicePrincipal where
  displayName : String
  applicationId : Option String
  groupIds : List String
  roles : List String
  resourceName : Option String
  options : Options
  deriving DecidableEq, Repr, Inhabited

def ServicePrincipal.codec : Codec ServicePrincipal :=
  .record
    (.cons (.required "display_name" .text) <|
     .cons (.optional "application_id" .text) <|
     .cons (.list "group_ids" .text) <|
     .cons (.list "roles" .text) <|
     .cons (.optional "resource_name" .text) <|
     .cons Options.field .nil)
    (fun (displayName, applicationId, groupIds, roles, resourceName, options, ()) =>
      { displayName, applicationId, groupIds, roles, resourceName, options })
    (fun s => (s.displayName, s.applicationId, s.groupIds, s.roles, s.resourceName, s.options, ()))

end Lakehouse
