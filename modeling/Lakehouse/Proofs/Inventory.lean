import Lakehouse.Document
import Lakehouse.Proofs.Compilation
import Lakehouse.Proofs.Pulumi
import Lakehouse.Proofs.Terraform

namespace Lakehouse

open List Attempt

variable {s : Stack} {g : Graph} {b : Backend} {r : Resource} {v : Value}

theorem Graph.emit_ok {d : Document} (h : g.emit b = .ok d) : match b with
    | .pulumi    => Pulumi.body g = .ok d.body
    | .terraform => Terraform.body g = .ok d.body := by
  cases b <;>
    have ⟨_, hb, h⟩ := bind_ok_iff.mp h <;>
    cases h <;>
    exact hb

namespace Pulumi

-- The entries are those of the resources, in order, each under its id and with its type.
structure Inventory (g : Graph) (body : Value) : Prop where
  entries : ∃ entries : Dict Value, body.field? "resources" = some (.object entries) ∧
    Dict.keys entries = idsOf g.resources ∧
      Forall₂ (fun r e => e.1 = r.id ∧ entry g r = .ok e.2 ∧
        e.2.field? "type" = some (.string (typeToken r.kind))) g.resources entries

theorem entry_type {e : Value} (h : entry g r = .ok e) :
    e.field? "type" = some (.string (typeToken r.kind)) := by
  have ⟨_, _, he⟩ := entry_ok h
  rw [he]
  rfl

theorem body_inventory (h : body g = .ok v) (hn : (idsOf g.resources).Nodup) : Inventory g v where
  entries := by
    have ⟨entries, hv, hk, hf⟩ := body_entries h hn
    exact ⟨entries, hv, hk, hf.imp fun _ _ ⟨hi, he⟩ => ⟨hi, he, entry_type he⟩⟩

end Pulumi

namespace Terraform

structure Inventory (g : Graph) (body : Value) : Prop where
  -- A resource has its block under its type and id, and none elsewhere.
  placed    : ∀ r ∈ g.resources, r.kind ≠ .provider → ∃ type b, typeName? r.kind = some type ∧
    block g r = .ok b ∧ block? body type r.id = some b
  nowhere   : ∀ r ∈ g.resources, ∀ type b, block? body type r.id = some b →
    typeName? r.kind = some type
  only      : ∀ type id b, block? body type id = some b →
    ∃ r ∈ g.resources, r.id = id ∧ typeName? r.kind = some type
  -- Each type is there once, with the resources of that type in order.
  types     : ∃ types : Dict Value, body.field? "resource" = some (.object types) ∧
    (Dict.keys types).Nodup ∧
      ∀ type, type ∈ Dict.keys types ↔ ∃ r ∈ g.resources, typeName? r.kind = some type
  ordered   : ∀ type, (∃ r ∈ g.resources, typeName? r.kind = some type) →
    ∃ blocks : Dict Value, (body.field? "resource").bind (·.field? type) = some (.object blocks) ∧
      Dict.keys blocks = idsOf (g.resources.filter (typeName? ·.kind = some type))
  -- There is one entry for each provider, in order.
  providers : ∃ entries : List Value,
    Forall₂ (fun r e => providerEntry r = .ok e) (g.resources.filter (·.kind = .provider)) entries ∧
      body.field? "provider" =
        if entries.isEmpty then none else some (.object [("databricks", .array entries)])
  unprovided : body.field? "provider" = none ↔ ∀ r ∈ g.resources, r.kind ≠ .provider

theorem body_inventory (h : body g = .ok v) (hn : (idsOf g.resources).Nodup) : Inventory g v := by
  obtain ⟨types, hv, hg⟩ := body_blocks h hn
  have hb : ∀ type id b, block? v type id = some b →
      ∃ r ∈ g.resources, r.id = id ∧ typeName? r.kind = some type := by
    intro type id b hb
    rw [block?_eq hv] at hb
    obtain ⟨r, hr, hi, ht, _⟩ := hg.get?_iff hn |>.mp hb
    exact ⟨r, hr, hi, ht⟩
  have hk : Dict.keys (types.mapValues Value.object) = Dict.keys types := by
    simp [Dict.keys, Dict.mapValues]
  obtain ⟨entries, he, hp⟩ := body_providers h
  exact {
    placed     := by
      intro r hr hk
      obtain ⟨type, ht⟩ := Option.ne_none_iff_exists'.mp <| mt typeName?_eq_none.mp hk
      obtain ⟨b, hb⟩ := body_ok h hn hr ht
      exact ⟨type, b, ht, hb⟩
    nowhere    := by
      intro r hr type b h
      obtain ⟨q, hq, hi, ht⟩ := hb type r.id b h
      exact inj_on_of_nodup_map hn hq hr hi ▸ ht
    only       := hb
    types      := ⟨_, hv, hk ▸ hg.nodup, hk ▸ hg.found⟩
    ordered    := by
      intro type ht
      obtain ⟨⟨_, blocks⟩, hm, he⟩ := mem_map.mp <| hg.found type |>.mpr ht
      have hbs : types.get? type = some blocks := Dict.get?_eq_some_iff hg.nodup |>.mpr <| he ▸ hm
      exact ⟨blocks, by rw [blocks?_eq hv, hbs, Option.map_some], hg.keys_eq hbs⟩
    providers  := ⟨entries, he, hp⟩
    unprovided := by
      have hl : entries.isEmpty ↔ ∀ r ∈ g.resources, r.kind ≠ .provider := by
        rw [List.isEmpty_iff, ← length_eq_zero_iff, ← he.length_eq, length_eq_zero_iff,
          filter_eq_nil_iff]
        simp
      rw [hp, ← hl]
      cases entries.isEmpty <;> simp
  }

end Terraform

-- A document lists the resources of the graph.
def Backend.Inventory (b : Backend) (g : Graph) (body : Value) : Prop :=
  match b with
  | .pulumi    => Pulumi.Inventory g body
  | .terraform => Terraform.Inventory g body

theorem Stack.emit_inventory {d : Document} (h : s.compile = .ok g) (hd : g.emit b = .ok d) :
    b.Inventory g d.body := by
  obtain ⟨_, _, c⟩ := compile_compiled h
  have hn := c.ids_nodup
  cases b
  case pulumi    => exact Pulumi.body_inventory (Graph.emit_ok hd) hn
  case terraform => exact Terraform.body_inventory (Graph.emit_ok hd) hn

-- Two providers, and resources of three kinds that take turns.
def mixedKinds : Stack :=
  { (default : Stack) with
    providers := [
      ("databricks", { plugin := "databricks", arguments := [] }),
      ("spare", { plugin := "databricks", arguments := [("profile", .string "b")] })]
    resources := { (default : Sections) with
      groups := [
        { (default : Group) with displayName := "a" },
        { (default : Group) with displayName := "b" }]
      users := [{ (default : User) with
        userName := "u"
        groupIds := ["$\x7bresources.group-a.id\x7d", "$\x7bresources.group-b.id\x7d"] }] } }

theorem emit_inventory_mixedKinds : ∃ g, mixedKinds.compile = .ok g ∧ g.resources.length = 7 ∧
    ∀ b, ∃ d, g.emit b = .ok d ∧ b.Inventory g d.body := by
  let g := mixedKinds.compile.toOption.getD default
  have hg : mixedKinds.compile = .ok g := eq_ok_of_isSome (by decide +kernel)
  refine ⟨g, hg, by decide +kernel, fun b => ?_⟩
  have hd : g.emit b = .ok (g.emit b |>.toOption.getD default) :=
    eq_ok_of_isSome (by cases b <;> decide +kernel)
  exact ⟨_, hd, Stack.emit_inventory hg hd⟩

end Lakehouse
