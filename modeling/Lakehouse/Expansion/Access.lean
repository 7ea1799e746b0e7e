import Lakehouse.Declaration.Access
import Lakehouse.Expansion.Context

namespace Lakehouse.Expansion

-- Refuses the first access control that does not name exactly one principal.
def checkPrincipals (id : String) (controls : List AccessControl) : Except CompileError Unit :=
  match controls.findIdx? (·.principal?.isNone) with
  | some i => .error (.invalidDeclaration id (.principalCount i))
  | none => .ok ()

-- The permissions on an owner, if there are any. `field` tells the object by the owner's `attr`.
def permissions (owner : Resource) (field attr : String) (controls : List AccessControl) :
    Except CompileError (List Resource) := do
  if controls.isEmpty then return []
  let id := "permissions-" ++ owner.id
  checkPrincipals id controls
  return [.auxiliary id .permissions
    [(field, .string (Placeholder.attr owner.id attr)),
     ("access_controls", AccessControl.codec.list.write controls)] owner]

def checkGrants (id : String) (grants : List Grant) : Except CompileError Unit :=
  match grants.find? (·.principal.isEmpty) with
  | some g => .error (.invalidDeclaration id (.grantWithoutPrincipal g.privileges))
  | none => .ok ()

-- The grants on an owner, if there are any.
def grants (owner : Resource) (field attr : String) (grants : List Grant) :
    Except CompileError (List Resource) := do
  if grants.isEmpty then return []
  let id := "grants-" ++ owner.id
  checkGrants id grants
  return [.auxiliary id .grants
    [(field, .string (Placeholder.attr owner.id attr)),
     ("grants", Grant.codec.list.write grants)] owner]

end Lakehouse.Expansion
