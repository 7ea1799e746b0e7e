import Lakehouse.Emission.Pulumi
import Lakehouse.Emission.Terraform
import Lakehouse.Yaml.Printer

namespace Lakehouse

structure Document where
  backend : Backend
  body : Value
  deriving Repr, Inhabited

namespace Document

def fileName (d : Document) : String := d.backend.fileName

-- Pulumi reads YAML; Terraform reads JSON.
def render (d : Document) : String :=
  match d.backend with
  | .pulumi => Yaml.print d.body
  | .terraform => Json.pretty d.body ++ "\n"

def fingerprint (d : Document) : String := Digest.ofText d.render

end Document

namespace Graph

def emit (g : Graph) (b : Backend) : Except EmitError Document := do
  let body ← match b with
    | .pulumi => Pulumi.body g
    | .terraform => Terraform.body g
  return ⟨b, body⟩

end Graph

end Lakehouse
