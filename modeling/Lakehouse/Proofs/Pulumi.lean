import Lakehouse.Proofs.Attempt
import Lakehouse.Proofs.Reference
import Lakehouse.Proofs.Resolution
import Lakehouse.Proofs.Texts

namespace Lakehouse.Pulumi

open List Attempt

variable {g : Graph} {r : Resource} {v : Value} {id key : String}

theorem handle_inj {a b : String} (h : handle a = handle b) : a = b := by
  simpa [handle, reference, ← String.toList_inj] using h

-- The entry of a resource in a program.
def emitted? (body : Value) (id : String) : Option Value :=
  (body.field? "resources").bind (·.field? id)

-- The entry says that the resource depends on the one with this id.
def Expresses (entry : Value) (id : String) : Prop :=
  (∃ items, (entry.field? "options").bind (·.field? "dependsOn") = some (.array items) ∧
    handle id ∈ items) ∨
  (entry.field? "options").bind (·.field? "provider") = some (handle id) ∨
  ∃ properties, entry.field? "properties" = some properties ∧ ∃ t ∈ properties.texts, Refers id t

-- The entries of a program are those of the resources, one after the other.
theorem body_entries (h : body g = .ok v) (hn : (idsOf g.resources).Nodup) :
    ∃ entries : Dict Value, v.field? "resources" = some (.object entries) ∧
      Dict.keys entries = idsOf g.resources ∧
        Forall₂ (fun r e => e.1 = r.id ∧ entry g r = .ok e.2) g.resources entries := by
  have ⟨entries, hm, h⟩ := bind_ok_iff.mp h
  cases h
  have hf : Forall₂ (fun r e => e.1 = r.id ∧ entry g r = .ok e.2) g.resources entries := by
    refine (mapM_ok_iff.mp hm).imp fun r e h => ?_
    have ⟨_, he, h⟩ := bind_ok_iff.mp h
    cases h
    exact ⟨rfl, he⟩
  have hk : Dict.keys entries = idsOf g.resources := forall₂_map_eq (fun _ _ h => h.left) hf
  refine ⟨entries, ?_, hk, hf⟩
  cases g.description <;>
    simp [Value.field?, Value.object?, Dict.get?_cons, Dict.ofEntries_eq_self (hk ▸ hn)]

theorem body_ok (h : body g = .ok v) (hn : (idsOf g.resources).Nodup) (hr : r ∈ g.resources) :
    ∃ e, entry g r = .ok e ∧ emitted? v r.id = some e := by
  have ⟨entries, hv, hk, hf⟩ := body_entries h hn
  have ⟨⟨id, e⟩, he, hi, hok⟩ := exists_of_forall₂_left hf hr
  refine ⟨e, hok, ?_⟩
  rw [emitted?, hv, ← hi]
  exact Dict.get?_eq_some_iff (hk ▸ hn) |>.mpr he

theorem options_dependsOn : Dict.get? (options g r) "dependsOn" =
    if (g.orderingHints r.id).isEmpty then none
    else some (.array ((g.orderingHints r.id).map handle)) := by
  simp only [options, Dict.get?_append]
  cases r.provider <;> cases (g.orderingHints r.id).isEmpty <;>
    cases r.kind != .provider && r.deleteBeforeReplace <;> cases r.deletionPolicy == .retain <;> rfl

theorem options_provider : Dict.get? (options g r) "provider" = r.provider.map handle := by
  simp only [options, Dict.get?_append]
  cases r.provider <;> cases (g.orderingHints r.id).isEmpty <;>
    cases r.kind != .provider && r.deleteBeforeReplace <;> cases r.deletionPolicy == .retain <;> rfl

theorem part_get?_of_ne {name : String} {fields : Properties} (h : key ≠ name) :
    Dict.get? (part name fields) key = none := by
  cases fields <;> simp [part, Dict.get?_cons, h]

-- A part that is left out has nothing in it.
theorem part_field? {name : String} {fields : Properties} :
    (Dict.get? (part name fields) name).bind (·.field? key) = Dict.get? fields key := by
  cases fields <;> simp [part, Dict.get?_cons, Value.field?, Value.object?]

theorem part_texts {name : String} {fields : Properties} {P : String → Prop} :
    (∃ value, Dict.get? (part name fields) name = some value ∧ ∃ t ∈ value.texts, P t) ↔
      ∃ t ∈ (Value.object fields).texts, P t := by
  cases fields
  case nil => simp [part, Value.texts, Value.textsOfFields]
  case cons e fields => simp [part, Dict.get?_cons]

theorem entry_ok {e : Value} (h : entry g r = .ok e) : ∃ ps, Emission.prepare r .pulumi = .ok ps ∧
    e = .object ([("type", .string (typeToken r.kind))] ++
      part "properties" (Emission.adapt reference camelCase ps) ++ part "options" (options g r)) := by
  have ⟨properties, hp, h⟩ := bind_ok_iff.mp h
  have ⟨ps, hps, hp⟩ := bind_ok_iff.mp hp
  cases hp
  cases h
  exact ⟨ps, hps, rfl⟩

-- Both parts are found under their keys.
theorem entry_parts {e : Value} (h : entry g r = .ok e) : ∃ ps, Emission.prepare r .pulumi = .ok ps ∧
    e.field? "properties" =
      Dict.get? (part "properties" (Emission.adapt reference camelCase ps)) "properties" ∧
    e.field? "options" = Dict.get? (part "options" (options g r)) "options" := by
  have ⟨ps, hps, he⟩ := entry_ok h
  refine ⟨ps, hps, ?_, ?_⟩ <;>
    simp [he, Value.field?, Value.object?, Dict.get?_append, Dict.get?_cons, part_get?_of_ne]

theorem mem_hints_iff : (∃ items, Dict.get? (options g r) "dependsOn" = some (.array items) ∧
    handle id ∈ items) ↔ id ∈ g.orderingHints r.id := by
  have hi : ∀ ids : List String, handle id ∈ ids.map handle ↔ id ∈ ids :=
    fun ids => mem_map_of_injective fun _ _ => handle_inj
  rw [options_dependsOn]
  cases hh : g.orderingHints r.id
  case nil => simp
  case cons a hints =>
    rw [← hi]
    simp

-- An entry expresses the hints for its resource, its provider, and what its properties refer to.
theorem expresses_iff {e : Value} (h : entry g r = .ok e) : Expresses e id ↔
    id ∈ g.orderingHints r.id ∨ r.provider = some id ∨
      ∃ s ∈ Emission.carriedTexts r .pulumi camelCase,
        Refers id (Placeholder.substituteText reference s) := by
  have ⟨ps, hp, hpf, hof⟩ := entry_parts h
  have ht : (∃ properties, e.field? "properties" = some properties ∧
      ∃ t ∈ properties.texts, Refers id t) ↔ ∃ s ∈ Emission.carriedTexts r .pulumi camelCase,
        Refers id (Placeholder.substituteText reference s) := by
    rw [hpf, part_texts, Emission.exists_text_prepared_iff hp]
  have hr : r.provider.map handle = some (handle id) ↔ r.provider = some id := by
    rw [Option.map_eq_some_iff]
    exact ⟨fun ⟨_, ha, he⟩ => handle_inj he ▸ ha, fun h => ⟨_, h, rfl⟩⟩
  simp only [Expresses, hof, part_field?, mem_hints_iff, options_provider, ht, hr]

end Lakehouse.Pulumi
