import Lakehouse.Codec

namespace Lakehouse

-- A permission for one principal, which is a group, a user or a service principal.
structure AccessControl where
  groupName : Option String
  userName : Option String
  servicePrincipalName : Option String
  level : String
  deriving DecidableEq, Repr, Inhabited

namespace AccessControl

def codec : Codec AccessControl :=
  .record
    (.cons (.sparse "group_name" .text) <|
     .cons (.sparse "user_name" .text) <|
     .cons (.sparse "service_principal_name" .text) <|
     .cons (.required "permission_level" .text) .nil)
    (fun (groupName, userName, servicePrincipalName, level, ()) =>
      { groupName, userName, servicePrincipalName, level })
    (fun a => (a.groupName, a.userName, a.servicePrincipalName, a.level, ()))

-- The principal, if exactly one is named.
def principal? (a : AccessControl) : Option String :=
  match a.groupName, a.userName, a.servicePrincipalName with
  | some p, none, none => some p
  | none, some p, none => some p
  | none, none, some p => some p
  | _, _, _ => none

-- The same principal at another level.
def withLevel (a : AccessControl) (level : String) : AccessControl := { a with level }

-- Declarations keep their permissions in this field.
def field : Field (List AccessControl) := .list "access_controls" codec

end AccessControl

structure Grant where
  principal : String
  privileges : List String
  deriving DecidableEq, Repr, Inhabited

namespace Grant

def codec : Codec Grant :=
  .record
    (.cons (.required "principal" .text) <|
     .cons (.required "privileges" (.list .text)) .nil)
    (fun (principal, privileges, ()) => { principal, privileges })
    (fun g => (g.principal, g.privileges, ()))

def field : Field (List Grant) := .list "grants" codec

end Grant

end Lakehouse
