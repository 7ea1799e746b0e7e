import Lakehouse.Proofs.Inventory
/-!
Ordering hints. A resource is provisioned after its owner and after what its options name. Both
backends are told the same of it, besides who provides it and whether it is retained, and no property
takes the place of what they are told.
-/
namespace Lakehouse

open List Attempt

variable {s : Stack} {g : Graph} {r : Resource} {id : String} {entry b : Value}

namespace Resource

-- What the resource is told to come after, each once.
def hints (r : Resource) : List String :=
  (r.owner.toList ++ r.dependsOn).eraseDups

theorem edges_hints : (r.edges.filter Edge.isOrderingHint).map (·.dependency) = r.hints := by
  have hd : r.explicitLinks.map (·.target) = r.dependsOn := by
    simp [explicitLinks, Function.comp_def, zipIdx_map_fst]
  have ht : (r.ownerLinks ++ r.explicitLinks).map (·.target) = r.owner.toList ++ r.dependsOn := by
    simp [hd, ownerLinks, Function.comp_def]
  have hl : r.links = (r.ownerLinks ++ r.explicitLinks) ++ (r.providerLinks ++ r.referenceLinks) := by
    simp [links]
  have hf : (distinctBy Link.target r.links).filter
      (fun l => Edge.isOrderingHint ⟨r.id, l.target, l.origin⟩) =
      distinctBy Link.target (r.ownerLinks ++ r.explicitLinks) := by
    refine hl ▸ distinctBy_append_filter ?told ?other
    case told =>
      simp only [ownerLinks, explicitLinks, forall_mem_append, forall_mem_map]
      exact ⟨fun _ _ => rfl, fun _ _ => rfl⟩
    case other =>
      simp only [providerLinks, referenceLinks, forall_mem_append, forall_mem_map]
      exact ⟨fun _ _ => Bool.false_ne_true, fun _ _ => Bool.false_ne_true⟩
  rw [edges, filter_map, List.map_map, hints, ← ht, ← distinctBy_keys, ← hf]
  rfl

end Resource

namespace Compiled

variable {x : Expansion} {order : List Nat}

theorem get?_eq_some_iff (c : Compiled s x order g) :
    g.get? id = some r ↔ r ∈ g.resources ∧ r.id = id :=
  find?_key_eq_some_iff c.ids_nodup

-- The edges that leave an id are those of its resource.
theorem edges_from (c : Compiled s x order g) (id : String) :
    g.edges.filter (·.dependent == id) = (g.get? id).toList.flatMap Resource.edges := by
  rw [c.edges, filter_flatMap_of (q := (·.id == id)), filter_key_eq_find? c.nodup,
    ← find?_key_perm c.perm c.ids_nodup]
  · rfl
  · exact fun r _ e he => by rw [Resource.dependent_of_mem_edges he]

theorem orderingHints_eq (c : Compiled s x order g) (id : String) :
    g.orderingHints id = (g.get? id).toList.flatMap Resource.hints := by
  have hf : g.orderingHints id =
      ((g.edges.filter (·.dependent == id)).filter Edge.isOrderingHint).map (·.dependency) := by
    simp [Graph.orderingHints, filter_filter, Bool.and_comm]
  rw [hf, c.edges_from]
  cases g.get? id
  case none   => rfl
  case some r => simp [Resource.edges_hints]

theorem orderingHints_id (c : Compiled s x order g) (hr : r ∈ g.resources) :
    g.orderingHints r.id = r.hints := by
  simp [c.orderingHints_eq, c.get?_eq_some_iff.mpr ⟨hr, rfl⟩]

theorem mentions_hint (h : id ∈ r.hints) : r.Mentions id := by
  simp only [Resource.hints, mem_eraseDups, mem_append, Option.mem_toList] at h
  exact h.imp_right .inl

end Compiled

namespace Terraform

-- The type of a resource stands in its address; a provider has none.
theorem address_id (hn : (idsOf g.resources).Nodup) (hr : r ∈ g.resources) :
    address g r.id = (typeName? r.kind).getD "databricks" ++ "." ++ r.id := by
  have hf : g.resources.filter (·.id == r.id) = [r] := by
    rw [filter_key_eq_find? hn, find?_key_eq_some_iff hn |>.mpr ⟨hr, rfl⟩]
    rfl
  have ht : typeOf? g r.id = typeName? r.kind := by
    rw [typeOf?, ← filterMap_filter, hf]
    cases h : typeName? r.kind <;> simp [h]
  rw [address, ht]

theorem metaArguments_lifecycle : Dict.get? (metaArguments g r) "lifecycle" =
    if r.deletionPolicy = .retain then some (.object [("prevent_destroy", .bool true)])
    else none := by
  simp only [metaArguments, Dict.get?_append]
  cases r.provider <;> cases (g.orderingHints r.id).isEmpty <;> cases r.deletionPolicy <;> rfl

-- The block says what its resource comes after, who provides it, and whether it is retained. The
-- properties stand before that, and none of them is in its place.
structure Describes (g : Graph) (r : Resource) (block : Value) : Prop where
  dependsOn  : block.field? "depends_on" =
    if r.hints = [] then none else some (.strings (r.hints.map (address g)))
  provider   : block.field? "provider" = r.provider.map fun id => .string (address g id)
  lifecycle  : block.field? "lifecycle" =
    if r.deletionPolicy = .retain then some (.object [("prevent_destroy", .bool true)]) else none
  properties : ∃ ps, Emission.prepare r .terraform = .ok ps ∧
    (∀ key ∈ Dict.keys (Emission.adapt (reference g) singular ps), key ∉ reserved) ∧
    block = .object (Emission.adapt (reference g) singular ps ++ metaArguments g r)

theorem block_describes (h : block g r = .ok b) (hp : Plain r.properties)
    (hh : g.orderingHints r.id = r.hints) : Describes g r b := by
  have ⟨ps, hps, hn, hb⟩ := block_ok h hp
  have hf : ∀ key ∈ reserved, b.field? key = Dict.get? (metaArguments g r) key := by
    intro key hk
    simp [hb, Value.field?, Value.object?, Dict.get?_append, hn key hk]
  exact {
    dependsOn  := by simp [hf "depends_on" (by decide), metaArguments_dependsOn, hh]
    provider   := by rw [hf "provider" (by decide), metaArguments_provider]
    lifecycle  := by rw [hf "lifecycle" (by decide), metaArguments_lifecycle]
    properties := ⟨ps, hps, fun _ => adapt_keys hps hp, hb⟩
  }

end Terraform

namespace Pulumi

theorem options_retain : Dict.get? (options g r) "retainOnDelete" =
    if r.deletionPolicy = .retain then some (.bool true) else none := by
  simp only [options, Dict.get?_append]
  cases r.provider <;> cases (g.orderingHints r.id).isEmpty <;>
    cases r.kind != .provider && r.deleteBeforeReplace <;> cases r.deletionPolicy <;> rfl

def option? (entry : Value) (key : String) : Option Value :=
  (entry.field? "options").bind (·.field? key)

-- The entry says what its resource comes after, who provides it, and whether it is retained.
structure Describes (r : Resource) (entry : Value) : Prop where
  dependsOn : option? entry "dependsOn" =
    if r.hints = [] then none else some (.array (r.hints.map handle))
  provider  : option? entry "provider" = r.provider.map handle
  retain    : option? entry "retainOnDelete" =
    if r.deletionPolicy = .retain then some (.bool true) else none

theorem entry_option? {e : Value} {key : String} (h : Pulumi.entry g r = .ok e) :
    option? e key = Dict.get? (options g r) key := by
  have ⟨_, _, _, ho⟩ := entry_parts h
  rw [option?, ho, part_field?]

theorem entry_describes {e : Value} (h : Pulumi.entry g r = .ok e)
    (hh : g.orderingHints r.id = r.hints) : Describes r e where
  dependsOn := by simp [entry_option? h, options_dependsOn, hh]
  provider  := by rw [entry_option? h, options_provider]
  retain    := by rw [entry_option? h, options_retain]

end Pulumi

-- What a graph and its documents say of a resource, besides its properties.
structure Graph.Describes (g : Graph) (r : Resource) : Prop where
  hints     : g.orderingHints r.id = r.hints
  -- No property is in the way of what a configuration says besides.
  plain     : r.kind ≠ .provider → Plain r.properties
  addresses : ∀ id, id ∈ r.hints ∨ r.provider = some id → ∃ q ∈ g.resources, q.id = id ∧
    Terraform.address g id = (Terraform.typeName? q.kind).getD "databricks" ++ "." ++ id
  pulumi    : ∀ d, g.emit .pulumi = .ok d →
    ∃ entry, Pulumi.emitted? d.body r.id = some entry ∧ Pulumi.Describes r entry
  terraform : ∀ d, g.emit .terraform = .ok d → r.kind ≠ .provider →
    ∃ type block, Terraform.typeName? r.kind = some type ∧
      Terraform.block? d.body type r.id = some block ∧ Terraform.Describes g r block

theorem Stack.compile_describes (h : s.compile = .ok g) (hr : r ∈ g.resources) : g.Describes r := by
  have ⟨x, order, c⟩ := compile_compiled h
  have hh := c.orderingHints_id hr
  have hp : r.kind ≠ .provider → Plain r.properties :=
    expand_plain c.expand (c.perm.mem_iff.mp hr)
  exact {
    hints     := hh
    plain     := hp
    addresses := by
      intro id hi
      have hm : r.Mentions id := hi.elim Compiled.mentions_hint fun h => .inr <| .inr <| .inl h
      have ⟨q, hq, he⟩ := mem_map.mp <| c.mem_of_mentions hr hm |>.left
      exact ⟨q, hq, he, he ▸ Terraform.address_id c.ids_nodup hq⟩
    pulumi    := by
      intro d hd
      have ⟨entry, he, hb⟩ := Pulumi.body_ok (Graph.emit_ok hd) c.ids_nodup hr
      exact ⟨entry, hb, Pulumi.entry_describes he hh⟩
    terraform := by
      intro d hd hk
      have ⟨type, ht⟩ := Option.ne_none_iff_exists'.mp <| mt Terraform.typeName?_eq_none.mp hk
      have ⟨block, he, hb⟩ := Terraform.body_ok (Graph.emit_ok hd) c.ids_nodup hr ht
      exact ⟨type, block, ht, hb, Terraform.block_describes he (hp hk) hh⟩
  }

-- Three groups, of which the last one is retained and names one of the others twice.
def retainedGroup : Stack :=
  let group (name : String) (options : Options) : Group :=
    { (default : Group) with displayName := name, options }
  { (default : Stack) with
    providers := [("databricks", { plugin := "databricks", arguments := [] })]
    resources := { (default : Sections) with
      groups := [group "a" .none, group "b" .none, group "c" { Options.none with
        dependsOn      := ["group-b", "$\x7bresources.group-a\x7d", "group-b"]
        deletionPolicy := .retain }] } }

theorem compile_describes_retainedGroup : ∃ g r, retainedGroup.compile = .ok g ∧
    r ∈ g.resources ∧ r.kind ≠ .provider ∧ r.hints = ["group-b", "group-a"] ∧
      r.provider = some "databricks" ∧ r.deletionPolicy = .retain ∧
        (∀ b, ∃ d, g.emit b = .ok d) ∧ g.Describes r := by
  let g := retainedGroup.compile.toOption.getD default
  have hg : retainedGroup.compile = .ok g := eq_ok_of_isSome (by decide +kernel)
  have ⟨r, hr, hk, hh, hp, hd⟩ : ∃ r ∈ g.resources, r.kind ≠ .provider ∧
      r.hints = ["group-b", "group-a"] ∧ r.provider = some "databricks" ∧
        r.deletionPolicy = .retain := by
    decide +kernel
  refine ⟨g, r, hg, hr, hk, hh, hp, hd, fun b => ?_, Stack.compile_describes hg hr⟩
  exact ⟨_, eq_ok_of_isSome (by cases b <;> decide +kernel)⟩

end Lakehouse
