import Lakehouse.Graph

namespace Lakehouse

inductive Backend where
  | pulumi
  | terraform
  deriving DecidableEq, Repr, Inhabited

namespace Backend

def all : List Backend := [pulumi, terraform]

def word : Backend → String
  | pulumi => "pulumi"
  | terraform => "terraform"

def codec : Codec Backend := .choice all word

-- The name under which the document of a backend is kept.
def fileName : Backend → String
  | pulumi => "Pulumi.yaml"
  | terraform => "main.tf.json"

end Backend

inductive EmitError where
  | missingField (backend : Backend) (resource : String) (kind : Kind) (field : String)
  deriving DecidableEq, Repr, Inhabited

def EmitError.message : EmitError → String
  | missingField backend resource kind field =>
    s!"{backend.word}: resource '{resource}' ({kind.word}) has no value for required field '{field}'"

namespace Emission

-- Fields that a backend works out itself, or has no place for.
def excluded : Kind → Backend → List String
  | .notebook, .terraform => ["language"]
  | _, _ => []

-- Fields without which no backend can make a resource.
def required : Kind → List String
  | .provider => []
  | .catalog | .schema | .table | .volume | .job | .dltPipeline | .warehouse
  | .vectorSearchEndpoint => ["name"]
  | .notebook => ["source", "path"]
  | .workspaceFile => ["path"]
  | .permissions => ["access_controls"]
  | .grants => ["grants"]
  | .group | .servicePrincipal => ["display_name"]
  | .user => ["user_name"]
  | .groupMember => ["group_id", "member_id"]
  | .userRole => ["user_id", "role"]
  | .servicePrincipalRole => ["service_principal_id", "role"]

-- Whether there is something under a key.
def isPresent (properties : Properties) (key : String) : Bool :=
  match Dict.get? properties key with
  | some v => !v.isNull
  | none => false

-- The properties that a backend takes, if none is missing.
def prepare (r : Resource) (b : Backend) : Except EmitError Properties :=
  let properties := Dict.eraseAll r.properties (excluded r.kind b)
  match (required r.kind).find? (!isPresent properties ·) with
  | some field => .error (.missingField b r.id r.kind field)
  | none => .ok properties

-- Fields under which the keys belong to the user.
def opaqueKeys : List String :=
  ["configuration", "tags", "custom_tags", "spark_conf", "spark_env_vars", "base_parameters"]

mutual

-- Renames the keys of a value at every depth, but not what lies under an opaque key.
def renameKeys (f : String → String) : Value → Value
  | .array items => .array (renameItems f items)
  | .object fields => .object (Dict.ofEntries (renameFields f fields))
  | .null => .null
  | .bool b => .bool b
  | .number n => .number n
  | .string s => .string s
termination_by structural v => v

def renameItems (f : String → String) : List Value → List Value
  | [] => []
  | v :: rest => renameKeys f v :: renameItems f rest
termination_by structural vs => vs

def renameFields (f : String → String) : List (String × Value) → List (String × Value)
  | [] => []
  | (key, v) :: rest =>
    (f key, if opaqueKeys.contains key then v else renameKeys f v) :: renameFields f rest
termination_by structural fs => fs

end

-- The properties with placeholders and keys in the way of a backend.
def adapt (reference : Placeholder → String) (key : String → String) (properties : Properties) :
    Properties :=
  Dict.ofEntries (renameFields key (Placeholder.substituteFields reference properties))

end Emission

end Lakehouse
