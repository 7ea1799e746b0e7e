import Lakehouse.Proofs.Attempt
import Lakehouse.Proofs.Reference
import Lakehouse.Proofs.Reserved
import Lakehouse.Proofs.Resolution
import Lakehouse.Proofs.Texts

namespace Lakehouse.Terraform

open List Attempt

variable {g : Graph} {r : Resource} {rs : List Resource} {v : Value} {id type key t : String}
variable {placed : List Placed} {types : Dict Properties}

-- The block of a resource in a configuration.
def block? (body : Value) (type id : String) : Option Value :=
  ((body.field? "resource").bind (·.field? type)).bind (·.field? id)

-- The block says that the resource depends on the one with this id.
def Expresses (g : Graph) (block : Value) (id : String) : Prop :=
  (∃ items, block.field? "depends_on" = some (.array items) ∧ .string (address g id) ∈ items) ∨
  block.field? "provider" = some (.string (address g id)) ∨
  ∃ t ∈ block.texts, Refers g id t

-- The blocks of a configuration by type: under each type that a resource has, its resources in order.
structure Grouped (g : Graph) (types : Dict Properties) : Prop where
  nodup  : (Dict.keys types).Nodup
  found  : ∀ type, type ∈ Dict.keys types ↔ ∃ r ∈ g.resources, typeName? r.kind = some type
  blocks : ∀ type blocks, types.get? type = some blocks →
    Forall₂ (fun r e => e.1 = r.id ∧ block g r = .ok e.2)
      (g.resources.filter (typeName? ·.kind = some type)) blocks

namespace Placed

def type? : Placed → Option String
  | provider _ => none
  | resource type _ _ => some type

-- What it adds to the blocks of a type.
def under? (type : String) : Placed → Option (String × Value)
  | provider _ => none
  | resource type' id block => if type' = type then some (id, block) else none

variable {p : Placed}

theorem get?_addTo : ((p.addTo types).get? type).getD [] =
    Dict.insertAll ((types.get? type).getD []) (p.under? type).toList := by
  cases p
  case provider => rfl
  case resource type' id block =>
    simp only [addTo, under?, Dict.get?_insert]
    by_cases ht : type' = type
    case pos => simp [ht, Dict.insertAll]
    case neg => simp [ht, Ne.symm ht, Dict.insertAll]

theorem get?_foldl : ((placed.foldl addTo types).get? type).getD [] =
    Dict.insertAll ((types.get? type).getD []) (placed.filterMap (under? type)) := by
  induction placed generalizing types
  case nil => rfl
  case cons p placed ih =>
    rw [foldl_cons, ih, get?_addTo, filterMap_cons]
    cases p.under? type <;> rfl

theorem nodup_foldl (h : (Dict.keys types).Nodup) :
    (Dict.keys (placed.foldl addTo types)).Nodup := by
  induction placed generalizing types
  case nil => exact h
  case cons p placed ih =>
    cases p
    case provider => exact ih h
    case resource => exact ih <| Dict.nodup_insert h

theorem mem_keys_foldl : type ∈ Dict.keys (placed.foldl addTo types) ↔
    type ∈ Dict.keys types ∨ type ∈ placed.filterMap type? := by
  induction placed generalizing types
  case nil => simp
  case cons p placed ih =>
    rw [foldl_cons, ih]
    cases p
    case provider => rfl
    case resource => simp [addTo, type?, Dict.mem_keys_insert, or_left_comm, or_assoc]

end Placed

theorem place_resource {p : Placed} (h : place g r = .ok p) (ht : typeName? r.kind = some type) :
    ∃ b, block g r = .ok b ∧ p = .resource type r.id b := by
  simp only [place, ht, bind_ok_iff] at h
  have ⟨b, hb, h⟩ := h
  cases h
  exact ⟨b, hb, rfl⟩

theorem place_provider {p : Placed} (h : place g r = .ok p) (ht : typeName? r.kind = none) :
    ∃ e, providerEntry r = .ok e ∧ p = .provider e := by
  simp only [place, ht, bind_ok_iff] at h
  have ⟨e, he, h⟩ := h
  cases h
  exact ⟨e, he, rfl⟩

theorem typeName?_eq_none {kind : Kind} : typeName? kind = none ↔ kind = .provider := by
  cases kind <;> simp [typeName?]

theorem place_type? {p : Placed} (h : place g r = .ok p) : p.type? = typeName? r.kind := by
  cases ht : typeName? r.kind
  case none =>
    have ⟨_, _, hp⟩ := place_provider h ht
    rw [hp]
    rfl
  case some =>
    have ⟨_, _, hp⟩ := place_resource h ht
    rw [hp]
    rfl

-- Of what is placed, the providers and the blocks of each type are those of the resources.
theorem placed_providers (h : Forall₂ (fun r p => place g r = .ok p) rs placed) :
    Forall₂ (fun r e => providerEntry r = .ok e) (rs.filter (·.kind = .provider))
      (placed.filterMap Placed.provider?) := by
  induction h
  case nil => exact .nil
  case cons r p _ _ hp _ ih =>
    by_cases hk : r.kind = .provider
    case pos =>
      have ⟨e, he, hpe⟩ := place_provider hp (typeName?_eq_none.mpr hk)
      simpa [hk, hpe, Placed.provider?] using ⟨he, ih⟩
    case neg =>
      have ⟨_, ht⟩ := Option.ne_none_iff_exists'.mp <| typeName?_eq_none.not.mpr hk
      have ⟨_, _, hpe⟩ := place_resource hp ht
      rw [filterMap_cons_none (hpe ▸ rfl)]
      simpa [hk] using ih

theorem placed_blocks (type : String) (h : Forall₂ (fun r p => place g r = .ok p) rs placed) :
    Forall₂ (fun r e => e.1 = r.id ∧ block g r = .ok e.2)
      (rs.filter (typeName? ·.kind = some type)) (placed.filterMap (Placed.under? type)) := by
  induction h
  case nil => exact .nil
  case cons r p _ _ hp _ ih =>
    cases ht : typeName? r.kind
    case none =>
      have ⟨_, _, hpe⟩ := place_provider hp ht
      rw [filterMap_cons_none (hpe ▸ rfl)]
      simpa [ht] using ih
    case some type' =>
      have ⟨b, hb, hpe⟩ := place_resource hp ht
      by_cases he : type' = type
      case pos => simpa [ht, he, hpe, Placed.under?] using ⟨hb, ih⟩
      case neg => simpa [ht, he, hpe, Placed.under?] using ih

theorem grouped (hn : (idsOf g.resources).Nodup)
    (h : Forall₂ (fun r p => place g r = .ok p) g.resources placed) :
    Grouped g (placed.foldl Placed.addTo []) where
  nodup  := Placed.nodup_foldl nodup_nil
  found  := by
    intro type
    rw [Placed.mem_keys_foldl]
    simp only [Dict.keys, map_nil, not_mem_nil, false_or, mem_filterMap]
    constructor
    case mp =>
      intro ⟨p, hp, ht⟩
      have ⟨r, hr, h⟩ := exists_of_forall₂_right h hp
      exact ⟨r, hr, place_type? h ▸ ht⟩
    case mpr =>
      intro ⟨r, hr, ht⟩
      have ⟨p, hp, h⟩ := exists_of_forall₂_left h hr
      exact ⟨p, hp, place_type? h ▸ ht⟩
  blocks := by
    intro type blocks hb
    have hf := placed_blocks type h
    have hk : Dict.keys (placed.filterMap (Placed.under? type)) =
        idsOf (g.resources.filter (typeName? ·.kind = some type)) :=
      forall₂_map_eq (fun _ _ h => h.left) hf
    have hd : (Dict.keys (placed.filterMap (Placed.under? type))).Nodup :=
      hk ▸ hn.sublist (filter_sublist.map _)
    have he := @Placed.get?_foldl type placed []
    rw [hb] at he
    have hbs : blocks = placed.filterMap (Placed.under? type) :=
      he.trans <| Dict.insertAll_eq_append hd
    exact hbs ▸ hf

namespace Grouped

theorem keys_eq (hg : Grouped g types) {blocks : Properties} (h : types.get? type = some blocks) :
    Dict.keys blocks = idsOf (g.resources.filter (typeName? ·.kind = some type)) :=
  forall₂_map_eq (fun _ _ h => h.left) (hg.blocks type blocks h)

theorem get?_iff (hg : Grouped g types) (hn : (idsOf g.resources).Nodup) {b : Value} :
    (types.get? type).bind (Dict.get? · id) = some b ↔
      ∃ r ∈ g.resources, r.id = id ∧ typeName? r.kind = some type ∧ block g r = .ok b := by
  have hd : ∀ blocks, types.get? type = some blocks → (Dict.keys blocks).Nodup :=
    fun blocks h => hg.keys_eq h ▸ hn.sublist (filter_sublist.map _)
  constructor
  case mp =>
    intro h
    have ⟨blocks, hbs, hb⟩ := Option.bind_eq_some_iff.mp h
    have hm := Dict.get?_eq_some_iff (hd blocks hbs) |>.mp hb
    have ⟨r, hr, hi, hb⟩ := exists_of_forall₂_right (hg.blocks type blocks hbs) hm
    have ⟨hr, ht⟩ := mem_filter.mp hr
    exact ⟨r, hr, hi.symm, by simpa using ht, hb⟩
  case mpr =>
    intro ⟨r, hr, hi, ht, hb⟩
    have ⟨⟨_, blocks⟩, hm, he⟩ := mem_map.mp <| hg.found type |>.mpr ⟨r, hr, ht⟩
    have hbs : types.get? type = some blocks := Dict.get?_eq_some_iff hg.nodup |>.mpr <| he ▸ hm
    have hf : r ∈ g.resources.filter (typeName? ·.kind = some type) :=
      mem_filter.mpr ⟨hr, by simpa using ht⟩
    have ⟨⟨_, b'⟩, hm, hi', hb'⟩ := exists_of_forall₂_left (hg.blocks type blocks hbs) hf
    have hbb : b' = b := Except.ok.inj <| hb'.symm.trans hb
    rw [hbs, Option.bind_some, Dict.get?_eq_some_iff (hd blocks hbs)]
    exact hi ▸ hi' ▸ hbb ▸ hm

end Grouped

theorem body_blocks (h : body g = .ok v) (hn : (idsOf g.resources).Nodup) :
    ∃ types : Dict Properties, v.field? "resource" = some (.object (types.mapValues .object)) ∧
      Grouped g types := by
  have ⟨placed, hp, h⟩ := bind_ok_iff.mp h
  refine ⟨placed.foldl Placed.addTo [], ?_, grouped hn <| mapM_ok_iff.mp hp⟩
  cases h
  cases g.vars.isEmpty <;> cases (placed.filterMap Placed.provider?).isEmpty <;> rfl

theorem blocks?_eq (h : v.field? "resource" = some (.object (types.mapValues .object))) :
    (v.field? "resource").bind (·.field? type) = (types.get? type).map .object := by
  rw [h]
  exact Dict.get?_mapValues

theorem block?_eq (h : v.field? "resource" = some (.object (types.mapValues .object))) :
    block? v type id = (types.get? type).bind (Dict.get? · id) := by
  rw [block?, blocks?_eq h]
  cases types.get? type <;> rfl

theorem body_ok (h : body g = .ok v) (hn : (idsOf g.resources).Nodup) (hr : r ∈ g.resources)
    (ht : typeName? r.kind = some type) : ∃ b, block g r = .ok b ∧ block? v type r.id = some b := by
  have ⟨types, hv, hg⟩ := body_blocks h hn
  have ⟨placed, hp, _⟩ := bind_ok_iff.mp h
  have ⟨_, _, hp⟩ := exists_of_mapM_ok hp hr
  have ⟨b, hb, _⟩ := place_resource hp ht
  refine ⟨b, hb, ?_⟩
  rw [block?_eq hv]
  exact hg.get?_iff hn |>.mpr ⟨r, hr, rfl, ht, hb⟩

-- The providers of a configuration are those of the resources, one after the other.
theorem body_providers (h : body g = .ok v) : ∃ entries : List Value,
    Forall₂ (fun r e => providerEntry r = .ok e) (g.resources.filter (·.kind = .provider)) entries ∧
      v.field? "provider" =
        if entries.isEmpty then none else some (.object [("databricks", .array entries)]) := by
  have ⟨placed, hp, h⟩ := bind_ok_iff.mp h
  refine ⟨placed.filterMap Placed.provider?, placed_providers <| mapM_ok_iff.mp hp, ?_⟩
  cases h
  cases g.vars.isEmpty <;> cases (placed.filterMap Placed.provider?).isEmpty <;> rfl

theorem metaArguments_dependsOn : Dict.get? (metaArguments g r) "depends_on" =
    if (g.orderingHints r.id).isEmpty then none
    else some (.strings ((g.orderingHints r.id).map (address g))) := by
  simp only [metaArguments, Dict.get?_append]
  cases r.provider <;> cases (g.orderingHints r.id).isEmpty <;>
    cases r.deletionPolicy == .retain <;> rfl

theorem metaArguments_provider : Dict.get? (metaArguments g r) "provider" =
    r.provider.map fun id => .string (address g id) := by
  simp only [metaArguments, Dict.get?_append]
  cases r.provider <;> cases (g.orderingHints r.id).isEmpty <;>
    cases r.deletionPolicy == .retain <;> rfl

theorem metaArguments_keys : Dict.keys (metaArguments g r) <+ reserved := by
  simp only [metaArguments, Dict.keys, map_append, reserved]
  cases r.provider <;> cases (g.orderingHints r.id).isEmpty <;>
    cases r.deletionPolicy == .retain <;> simp

-- The texts of these are addresses.
theorem mem_metaArguments_texts (h : t ∈ (Value.object (metaArguments g r)).texts) :
    ∃ id, (id ∈ g.orderingHints r.id ∨ r.provider = some id) ∧ t = address g id := by
  have ⟨e, he, ht⟩ := Value.mem_textsOfFields.mp h
  simp only [metaArguments, mem_append, mem_map, Option.mem_toList] at he
  obtain (⟨id, hp, he⟩ | he) | he := he
  · rw [← he] at ht
    exact ⟨id, .inr hp, by simpa [Value.texts] using ht⟩
  · split at he
    · contradiction
    · rw [mem_singleton.mp he, Value.texts_strings] at ht
      obtain ⟨id, hi, ht⟩ := mem_map.mp ht
      exact ⟨id, .inl hi, ht.symm⟩
  · split at he
    · rw [mem_singleton.mp he] at ht
      contradiction
    · contradiction

theorem metaArguments_dependsOn_iff (ha : ∀ a ∈ g.orderingHints r.id, Ident.isAddressable a) :
    (∃ items, Dict.get? (metaArguments g r) "depends_on" = some (.array items) ∧
      .string (address g id) ∈ items) ↔ id ∈ g.orderingHints r.id := by
  rw [metaArguments_dependsOn]
  constructor
  case mp =>
    rintro ⟨items, hi, hm⟩
    split at hi <;> cases hi
    obtain ⟨_, hm, he⟩ := mem_map.mp hm
    obtain ⟨a, hm, hs⟩ := mem_map.mp hm
    exact address_inj (ha a hm) (hs.trans <| Value.string.inj he) ▸ hm
  case mpr =>
    intro hi
    have hne : (g.orderingHints r.id).isEmpty = false :=
      isEmpty_eq_false_iff_exists_mem.mpr ⟨_, hi⟩
    rw [hne]
    exact ⟨_, rfl, mem_map_of_mem <| mem_map_of_mem hi⟩

theorem metaArguments_provider_iff (ha : ∀ a, r.provider = some a → Ident.isAddressable a) :
    Dict.get? (metaArguments g r) "provider" = some (.string (address g id)) ↔
      r.provider = some id := by
  rw [metaArguments_provider, Option.map_eq_some_iff]
  constructor
  case mp =>
    rintro ⟨a, hp, he⟩
    exact address_inj (ha a hp) (Value.string.inj he) ▸ hp
  case mpr => exact fun hp => ⟨id, hp, rfl⟩

-- An address stands for itself; it is no reference from within a text.
theorem not_refers_metaArguments
    (ha : ∀ a, a ∈ g.orderingHints r.id ∨ r.provider = some a → Ident.isAddressable a) :
    ¬∃ t ∈ (Value.object (metaArguments g r)).texts, Refers g id t := by
  intro ⟨t, ht, href⟩
  have ⟨a, hi, he⟩ := mem_metaArguments_texts ht
  exact not_refers_address (ha a hi) (he ▸ href)

theorem adapt_keys {ps : Properties} (hb : Emission.prepare r .terraform = .ok ps)
    (hp : Plain r.properties) (hk : key ∈ Dict.keys (Emission.adapt (reference g) singular ps)) :
    key ∉ reserved := by
  rw [Emission.adapt, Dict.mem_keys_ofEntries, Emission.renameFields_keys,
    Emission.substituteFields_keys] at hk
  have ⟨e, he, hk⟩ := mem_map.mp hk
  rw [Emission.prepare_ok hb] at he
  exact hk ▸ hp e.1 (mem_map_of_mem <| (mem_filter.mp he).left)

-- A block is made of the properties and of what is said besides them.
theorem block_ok {b : Value} (h : block g r = .ok b) (hp : Plain r.properties) :
    ∃ ps, Emission.prepare r .terraform = .ok ps ∧
      (∀ key ∈ reserved, Dict.get? (Emission.adapt (reference g) singular ps) key = none) ∧
      b = .object (Emission.adapt (reference g) singular ps ++ metaArguments g r) := by
  have ⟨ps, hps, h⟩ := bind_ok_iff.mp h
  cases h
  have hr : ∀ key ∈ reserved, key ∉ Dict.keys (Emission.adapt (reference g) singular ps) :=
    fun key hk ha => adapt_keys hps hp ha hk
  refine ⟨ps, hps, fun key hk => Dict.get?_eq_none <| hr key hk, ?_⟩
  rw [Dict.insertAll_eq_append]
  rw [Dict.keys, map_append]
  apply Nodup.append Dict.nodup_ofEntries
  · exact Nodup.sublist metaArguments_keys (by decide)
  · exact fun key ha hm => hr key (metaArguments_keys.subset hm) ha

-- A block expresses the hints for its resource, its provider, and what its properties refer to.
theorem expresses_iff {b : Value} (h : block g r = .ok b) (hp : Plain r.properties)
    (ha : ∀ a, a ∈ g.orderingHints r.id ∨ r.provider = some a → Ident.isAddressable a) :
    Expresses g b id ↔ id ∈ g.orderingHints r.id ∨ r.provider = some id ∨
      ∃ s ∈ Emission.carriedTexts r .terraform singular,
        Refers g id (Placeholder.substituteText (reference g) s) := by
  have ⟨ps, hps, hn, hb⟩ := block_ok h hp
  have hf : ∀ key ∈ reserved, b.field? key = Dict.get? (metaArguments g r) key := by
    intro key hk
    simp [hb, Value.field?, Value.object?, Dict.get?_append, hn key hk]
  have ht : (∃ t ∈ b.texts, Refers g id t) ↔ ∃ s ∈ Emission.carriedTexts r .terraform singular,
      Refers g id (Placeholder.substituteText (reference g) s) := by
    have hm : ∀ t, t ∈ b.texts ↔
        t ∈ (Value.object (Emission.adapt (reference g) singular ps)).texts ∨
          t ∈ (Value.object (metaArguments g r)).texts := by
      intro t
      simp only [hb, Value.texts, Value.mem_textsOfFields, mem_append, or_and_right, exists_or]
    simp only [hm, or_and_right, exists_or, Emission.exists_text_prepared_iff hps,
      not_refers_metaArguments ha, or_false]
  rw [Expresses, hf _ (by decide), hf _ (by decide), ht,
    metaArguments_dependsOn_iff fun a h => ha a (.inl h),
    metaArguments_provider_iff fun a h => ha a (.inr h)]

end Lakehouse.Terraform
