import Lakehouse.Declaration.Identity
import Lakehouse.Expansion.Context
/-!
Resources of groups, users and service principals. Each membership and each role is a resource of
its own, bound to the principal.
-/
namespace Lakehouse

namespace Expansion

-- The membership of a principal in a group.
def membership (principal : Resource) (groupId : String) : Resource :=
  .auxiliary s!"group-member-{principal.id}-{Ident.key (Placeholder.normalize groupId)}" .groupMember
    [("group_id", .string groupId),
     ("member_id", .string (Placeholder.attr principal.id "id"))] principal

-- How the roles of a kind of principal are written.
structure RoleForm where
  kind : Kind
  stem : String
  field : String

def userRole : RoleForm := ⟨.userRole, "user-role", "user_id"⟩

def servicePrincipalRole : RoleForm :=
  ⟨.servicePrincipalRole, "service-principal-role", "service_principal_id"⟩

def role (form : RoleForm) (principal : Resource) (role : String) : Resource :=
  .auxiliary s!"{form.stem}-{principal.id}-{Ident.key role}" form.kind
    [(form.field, .string (Placeholder.attr principal.id "id")), ("role", .string role)] principal

-- A principal with its memberships and then its roles.
def withLinks (form : RoleForm) (principal : Resource) (groupIds roles : List String) :
    List Resource :=
  principal :: (groupIds.map (membership principal) ++ roles.map (role form principal))

end Expansion

def Group.expand (c : Context) (g : Group) : Except CompileError (List Resource) :=
  if g.displayName.isEmpty then .error (.invalidDeclaration "group" .emptyGroupName)
  else
    let id := Ident.derive g.resourceName "group" g.displayName
    .ok [c.primary id .group (Declaration.properties Group.codec g []) g.options]

def User.expand (c : Context) (u : User) : Except CompileError (List Resource) :=
  if u.userName.isEmpty then .error (.invalidDeclaration "user" .emptyUserName)
  else
    let id := Ident.derive u.resourceName "user" u.userName
    let properties := Declaration.properties User.codec u ["group_ids", "roles"]
    .ok (Expansion.withLinks Expansion.userRole (c.primary id .user properties u.options)
      u.groupIds u.roles)

def ServicePrincipal.expand (c : Context) (s : ServicePrincipal) :
    Except CompileError (List Resource) :=
  if s.displayName.isEmpty then
    .error (.invalidDeclaration "service-principal" .emptyServicePrincipalName)
  else
    let id := Ident.derive s.resourceName "service-principal" s.displayName
    let properties := Declaration.properties ServicePrincipal.codec s ["group_ids", "roles"]
    .ok (Expansion.withLinks Expansion.servicePrincipalRole
      (c.primary id .servicePrincipal properties s.options) s.groupIds s.roles)

end Lakehouse
