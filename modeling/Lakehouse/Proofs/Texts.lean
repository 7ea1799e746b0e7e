import Lakehouse.Emission.Field
import Lakehouse.Proofs.Dict
/-!
The texts of a value. Substitution changes each of them where it stands. Renaming keys changes none
of them, but drops what is under a key that a later key of the same object is renamed to as well.
-/
namespace Lakehouse

open List

variable {f : String → String} {reference : Placeholder → String} {t : String}

namespace Value

-- What an object has under a key.
def field? (v : Value) (key : String) : Option Value :=
  v.object?.bind (Dict.get? · key)

mutual

def texts : Value → List String
  | .string s => [s]
  | .array items => textsOfItems items
  | .object fields => textsOfFields fields
  | .null => []
  | .bool _ => []
  | .number _ => []
termination_by structural v => v

def textsOfItems : List Value → List String
  | [] => []
  | v :: rest => texts v ++ textsOfItems rest
termination_by structural vs => vs

def textsOfFields : List (String × Value) → List String
  | [] => []
  | (_, v) :: rest => texts v ++ textsOfFields rest
termination_by structural fs => fs

end

theorem texts_strings {xs : List String} : (strings xs).texts = xs := by
  induction xs
  case nil => rfl
  case cons x xs ih =>
    have hc : (strings (x :: xs)).texts = x :: (strings xs).texts := rfl
    rw [hc, ih]

theorem mem_textsOfFields {fields : List (String × Value)} :
    t ∈ textsOfFields fields ↔ ∃ e ∈ fields, t ∈ e.2.texts := by
  induction fields
  case nil => simp [textsOfFields]
  case cons e fields ih => simp [textsOfFields, ih]

end Value

namespace Placeholder

mutual

theorem texts_substitute (v : Value) :
    (substitute reference v).texts = v.texts.map (substituteText reference) := by
  cases v <;> simp only [substitute, Value.texts, map_nil, map_cons]
  case array items   => exact texts_substituteItems items
  case object fields => exact texts_substituteFields fields
termination_by structural v

theorem texts_substituteItems (items : List Value) :
    Value.textsOfItems (substituteItems reference items) =
      (Value.textsOfItems items).map (substituteText reference) := by
  cases items
  case nil => rfl
  case cons v items =>
    simp only [substituteItems, Value.textsOfItems, map_append]
    rw [texts_substitute v, texts_substituteItems items]
termination_by structural items

theorem texts_substituteFields (fields : List (String × Value)) :
    Value.textsOfFields (substituteFields reference fields) =
      (Value.textsOfFields fields).map (substituteText reference) := by
  match fields with
  | [] => rfl
  | (_, v) :: fields =>
    simp only [substituteFields, Value.textsOfFields, map_append]
    rw [texts_substitute v, texts_substituteFields fields]
termination_by structural fields

end

mutual

theorem scanValue_placeholders (v : Value) (path : String) :
    (scanValue path v).map Prod.snd = v.texts.flatMap inText := by
  cases v
  case string s      => simp [scanValue, Value.texts, Function.comp_def]
  case array items   => exact scanItems_placeholders items path 0
  case object fields => exact scanFields_placeholders fields path
  all_goals rfl
termination_by structural v

theorem scanItems_placeholders (items : List Value) (path : String) (i : Nat) :
    (scanItems path i items).map Prod.snd = (Value.textsOfItems items).flatMap inText := by
  cases items
  case nil => rfl
  case cons v items =>
    rw [scanItems, Value.textsOfItems, map_append, flatMap_append, scanValue_placeholders v,
      scanItems_placeholders items]
termination_by structural items

theorem scanFields_placeholders (fields : List (String × Value)) (path : String) :
    (scanFields path fields).map Prod.snd = (Value.textsOfFields fields).flatMap inText := by
  match fields with
  | [] => rfl
  | (key, v) :: fields =>
    rw [scanFields, Value.textsOfFields, map_append, flatMap_append, scanValue_placeholders v,
      scanFields_placeholders fields]
termination_by structural fields

end

-- What is found are the placeholders of the texts, in order.
theorem scan_placeholders {properties : Properties} :
    (scan properties).map Prod.snd = (Value.object properties).texts.flatMap inText := by
  induction properties
  case nil => rfl
  case cons e properties ih =>
    have hs : scan (e :: properties) = scanValue e.1 e.2 ++ scan properties := flatMap_cons
    have ht : (Value.object (e :: properties)).texts =
        e.2.texts ++ (Value.object properties).texts := rfl
    rw [hs, ht, map_append, flatMap_append, scanValue_placeholders, ih]

theorem exists_mem_scan {p : Placeholder} {properties : Properties} :
    (∃ found ∈ scan properties, found.2 = p) ↔
      ∃ s ∈ (Value.object properties).texts, p ∈ inText s := by
  rw [← mem_map, scan_placeholders, mem_flatMap]

end Placeholder

namespace Emission

mutual

-- The texts that are left of a value when its keys are renamed.
def keptTexts (f : String → String) : Value → List String
  | .string s => [s]
  | .array items => keptInItems f items
  | .object fields => keptInFields f fields
  | .null => []
  | .bool _ => []
  | .number _ => []
termination_by structural v => v

def keptInItems (f : String → String) : List Value → List String
  | [] => []
  | v :: rest => keptTexts f v ++ keptInItems f rest
termination_by structural vs => vs

def keptInFields (f : String → String) : List (String × Value) → List String
  | [] => []
  | (key, v) :: rest =>
    (if (rest.map fun e => f e.1).contains (f key) then []
      else if opaqueKeys.contains key then v.texts
      else keptTexts f v) ++ keptInFields f rest
termination_by structural fs => fs

end

theorem substituteFields_keys (fields : List (String × Value)) :
    (Placeholder.substituteFields reference fields).map (fun e => f e.1) =
      fields.map fun e => f e.1 := by
  induction fields
  case nil => rfl
  case cons e fields ih => simp only [Placeholder.substituteFields, map_cons, ih]

theorem renameFields_keys (fields : List (String × Value)) :
    Dict.keys (renameFields f fields) = fields.map fun e => f e.1 := by
  induction fields
  case nil => rfl
  case cons e fields ih => simpa only [renameFields, Dict.keys, map_cons, cons.injEq, true_and] using ih

mutual

theorem keptTexts_substitute (v : Value) :
    keptTexts f (Placeholder.substitute reference v) =
      (keptTexts f v).map (Placeholder.substituteText reference) := by
  cases v <;> simp only [Placeholder.substitute, keptTexts, map_nil, map_cons]
  case array items   => exact keptInItems_substitute items
  case object fields => exact keptInFields_substitute fields
termination_by structural v

theorem keptInItems_substitute (items : List Value) :
    keptInItems f (Placeholder.substituteItems reference items) =
      (keptInItems f items).map (Placeholder.substituteText reference) := by
  cases items
  case nil => rfl
  case cons v items =>
    simp only [Placeholder.substituteItems, keptInItems, map_append]
    rw [keptTexts_substitute v, keptInItems_substitute items]
termination_by structural items

theorem keptInFields_substitute (fields : List (String × Value)) :
    keptInFields f (Placeholder.substituteFields reference fields) =
      (keptInFields f fields).map (Placeholder.substituteText reference) := by
  match fields with
  | [] => rfl
  | (key, v) :: fields =>
    simp only [Placeholder.substituteFields, keptInFields, map_append, substituteFields_keys]
    rw [keptTexts_substitute v, keptInFields_substitute fields, Placeholder.texts_substitute v]
    split
    · rfl
    · split <;> rfl
termination_by structural fields

end

mutual

theorem mem_texts_renameKeys (v : Value) : t ∈ (renameKeys f v).texts ↔ t ∈ keptTexts f v := by
  cases v <;> simp only [renameKeys, Value.texts, keptTexts]
  case array items   => exact mem_texts_renameItems items
  case object fields =>
    rw [Value.mem_textsOfFields]
    simp only [Dict.mem_ofEntries]
    exact mem_texts_renameFields fields
termination_by structural v

theorem mem_texts_renameItems (items : List Value) :
    t ∈ Value.textsOfItems (renameItems f items) ↔ t ∈ keptInItems f items := by
  cases items
  case nil => exact Iff.rfl
  case cons v items =>
    simp only [renameItems, Value.textsOfItems, keptInItems, mem_append]
    exact or_congr (mem_texts_renameKeys v) (mem_texts_renameItems items)
termination_by structural items

theorem mem_texts_renameFields (fields : List (String × Value)) :
    (∃ e ∈ Dict.last (renameFields f fields), t ∈ e.2.texts) ↔ t ∈ keptInFields f fields := by
  match fields with
  | [] => simp [renameFields, Dict.last, keptInFields]
  | (key, v) :: fields =>
    have hv := mem_texts_renameKeys v
    have hf := mem_texts_renameFields fields
    simp only [renameFields, Dict.last, keptInFields, renameFields_keys, mem_append, ← hf]
    by_cases hk : f key ∈ fields.map fun e => f e.1
    case pos => simp only [contains_iff_mem, hk, if_true, not_mem_nil, false_or]
    case neg =>
      simp only [contains_iff_mem, hk, if_false, mem_cons, or_and_right, exists_or, exists_eq_left]
      by_cases ho : key ∈ opaqueKeys <;> simp only [ho, if_true, if_false, hv]
termination_by structural fields

end

theorem mem_texts_adapt {key : String → String} {properties : Properties} :
    t ∈ (Value.object (adapt reference key properties)).texts ↔
      ∃ s ∈ keptTexts key (.object properties), Placeholder.substituteText reference s = t := by
  have he : Value.object (adapt reference key properties) =
      renameKeys key (Placeholder.substitute reference (.object properties)) := rfl
  rw [he, mem_texts_renameKeys, keptTexts_substitute, mem_map]

theorem prepare_ok {r : Resource} {b : Backend} {properties : Properties}
    (h : prepare r b = .ok properties) :
    properties = Dict.eraseAll r.properties (excluded r.kind b) := by
  simp only [prepare] at h
  split at h <;> cases h
  rfl

-- The texts that a backend takes from a resource when it renames keys by `key`.
def carriedTexts (r : Resource) (b : Backend) (key : String → String) : List String :=
  keptTexts key (.object (Dict.eraseAll r.properties (excluded r.kind b)))

theorem mem_texts_prepared {r : Resource} {b : Backend} {key : String → String}
    {properties : Properties} (h : prepare r b = .ok properties) :
    t ∈ (Value.object (adapt reference key properties)).texts ↔
      ∃ s ∈ carriedTexts r b key, Placeholder.substituteText reference s = t := by
  rw [mem_texts_adapt, prepare_ok h, carriedTexts]

theorem exists_text_prepared_iff {r : Resource} {b : Backend} {key : String → String}
    {properties : Properties} {P : String → Prop} (h : prepare r b = .ok properties) :
    (∃ t ∈ (Value.object (adapt reference key properties)).texts, P t) ↔
      ∃ s ∈ carriedTexts r b key, P (Placeholder.substituteText reference s) := by
  simp only [mem_texts_prepared h, exists_exists_and_eq_and]

end Emission

end Lakehouse
