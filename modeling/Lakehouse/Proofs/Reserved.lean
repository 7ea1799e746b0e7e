import Lakehouse.Emission.Terraform
import Lakehouse.Proofs.Fields

namespace Lakehouse

open List

variable {r : Resource} {key : String}

def Terraform.reserved : List String :=
  ["provider", "depends_on", "lifecycle"]

-- The key is not reserved, nor renamed to one that is.
def Unreserved (key : String) : Prop :=
  Terraform.singular key ∉ Terraform.reserved

instance : Decidable (Unreserved key) :=
  inferInstanceAs (Decidable (_ ∉ _))

-- None of the keys is reserved.
def Plain (properties : Properties) : Prop :=
  ∀ key ∈ Dict.keys properties, Unreserved key

theorem Kind.fields_unreserved (k : Kind) : ∀ key ∈ k.fields, Unreserved key := by
  cases k <;> decide

-- No property of a resource that is not a provider is reserved.
theorem Stack.expand_plain {s : Stack} {x : Expansion} (h : s.expand = .ok x)
    (hr : r ∈ x.resources) (hk : r.kind ≠ .provider) : Plain r.properties := by
  intro key hm
  obtain ⟨e, he, rfl⟩ := mem_map.mp hm
  exact r.kind.fields_unreserved _ (expand_admits h hr hk e he).field

end Lakehouse
