import Lakehouse.Proofs.Emission
/-!
Placeholders that are left in a document. A configuration has those that stand in the arguments of
its providers; a program has what a reference to a resource called `resources` looks like. No other
text of an entry has a placeholder.
-/
namespace Lakehouse

open List Attempt Placeholder

variable {s : Stack} {g : Graph} {b : Backend} {r : Resource} {v : Value} {t : String}

-- What an object or a list holds.
def Value.parts : Value → List Value
  | .object fields => fields.map (·.2)
  | .array items => items
  | _ => []

theorem Value.exists_text_append {P : String → Prop} {ps more : Properties} :
    (∃ t ∈ (object (ps ++ more)).texts, P t) ↔
      (∃ t ∈ (object ps).texts, P t) ∨ ∃ t ∈ (object more).texts, P t := by
  simp only [texts, mem_textsOfFields, mem_append, or_and_right, exists_or]

-- The texts of what is adapted to a backend have the placeholders that its references look like.
theorem Emission.exists_placeholder_iff {reference : Placeholder → String} {key : String → String}
    {ps : Properties} (hf : ∀ p, p.WellFormed → Closed (reference p).toList)
    (h : prepare r b = .ok ps) :
    (∃ t ∈ (Value.object (adapt reference key ps)).texts, HasPlaceholder t) ↔
      ∃ t ∈ carriedTexts r b key, ∃ p ∈ inText t, IsPlaceholder (reference p) := by
  simp only [exists_text_prepared_iff h, hasPlaceholder_substituteText_iff hf]

namespace Pulumi

-- The entries of a program.
def entries (body : Value) : List Value :=
  (body.field? "resources").toList.flatMap Value.parts

-- A text of the resource refers to `resources` by what has the form of a placeholder.
def Leaves (r : Resource) : Prop :=
  ∃ t ∈ Emission.carriedTexts r .pulumi camelCase, ∃ p ∈ inText t,
    p.resource = "resources" ∧ IsPlaceholder (reference p)

example : (inText (reference ⟨"resources", some "user_name"⟩)).length = 1 := by
  decide +kernel

theorem typeToken_dollar (kind : Kind) : '$' ∉ (typeToken kind).toList := by
  cases kind <;> decide +kernel

-- The texts of the options are references.
theorem mem_options_texts (h : t ∈ (Value.object (options g r)).texts) :
    ∃ id, (id ∈ g.orderingHints r.id ∨ r.provider = some id) ∧ t = reference ⟨id, none⟩ := by
  have ⟨e, he, ht⟩ := Value.mem_textsOfFields.mp h
  simp only [options, mem_append, mem_map, Option.mem_toList] at he
  obtain ((⟨id, hp, he⟩ | he) | he) | he := he
  · rw [← he] at ht
    exact ⟨id, .inr hp, by simpa [Value.texts, handle] using ht⟩
  · split at he
    · contradiction
    · have hh : ∀ ids : List String, Value.array (ids.map handle) =
          Value.strings (ids.map fun id => reference ⟨id, none⟩) := by
        simp [Value.strings, handle, Function.comp_def]
      rw [mem_singleton.mp he, hh, Value.texts_strings] at ht
      obtain ⟨id, hi, ht⟩ := mem_map.mp ht
      exact ⟨id, .inl hi, ht.symm⟩
  · split at he
    · rw [mem_singleton.mp he] at ht
      contradiction
    · contradiction
  · split at he
    · rw [mem_singleton.mp he] at ht
      contradiction
    · contradiction

theorem part_placeholder {name : String} {fields : Properties} :
    (∃ t ∈ (Value.object (part name fields)).texts, HasPlaceholder t) ↔
      ∃ t ∈ (Value.object fields).texts, HasPlaceholder t := by
  cases fields <;> simp [part, Value.texts, Value.textsOfFields]

-- Of an entry, only what its properties refer to can look like a placeholder.
theorem entry_placeholder_iff {e : Value} (h : entry g r = .ok e)
    (ha : ∀ id, id ∈ g.orderingHints r.id ∨ r.provider = some id → Ident.isAddressable id) :
    (∃ t ∈ e.texts, HasPlaceholder t) ↔ Leaves r := by
  have ⟨ps, hps, he⟩ := entry_ok h
  have ht : ¬∃ t ∈ (Value.object [("type", .string (typeToken r.kind))]).texts, HasPlaceholder t := by
    intro ⟨t, ht, hp⟩
    have he : t = typeToken r.kind := by simpa [Value.texts, Value.textsOfFields] using ht
    exact typeToken_dollar r.kind <| he ▸ hp.dollar_mem
  have ho : ¬∃ t ∈ (Value.object (options g r)).texts, HasPlaceholder t := by
    intro ⟨t, ht, hp⟩
    have ⟨id, hi, he⟩ := mem_options_texts ht
    have hw : WellFormed ⟨id, none⟩ := ⟨ha id hi, fun _ hp => nomatch hp⟩
    rw [he] at hp
    have hi := of_isPlaceholder_reference hw <| isPlaceholder_of_closed (closed_reference hw) hp
    exact absurd hi.right (by simp)
  rw [he, Value.exists_text_append, Value.exists_text_append, part_placeholder, part_placeholder,
    Emission.exists_placeholder_iff (fun _ => closed_reference) hps]
  simp only [ht, ho, false_or, or_false, Leaves]
  constructor
  case mp =>
    intro ⟨t, ht, p, hp, hpl⟩
    exact ⟨t, ht, p, hp, (of_isPlaceholder_reference (inText_wellFormed hp) hpl).left, hpl⟩
  case mpr => exact fun ⟨t, ht, p, hp, _, hpl⟩ => ⟨t, ht, p, hp, hpl⟩

end Pulumi

namespace Terraform

def blockEntries (body : Value) : List Value :=
  ((body.field? "resource").toList.flatMap Value.parts).flatMap Value.parts

def providerEntries (body : Value) : List Value :=
  ((body.field? "provider").bind (·.field? "databricks")).toList.flatMap Value.parts

-- The blocks of a configuration, and what it has for providers.
def entries (body : Value) : List Value :=
  blockEntries body ++ providerEntries body

theorem exists_of_mem_blockEntries {e : Value} (h : body g = .ok v) (hn : (idsOf g.resources).Nodup)
    (he : e ∈ blockEntries v) : ∃ r ∈ g.resources, r.kind ≠ .provider ∧ block g r = .ok e := by
  have ⟨types, hv, hg⟩ := body_blocks h hn
  simp only [blockEntries, hv, mem_flatMap, Option.mem_toList, Option.some.injEq] at he
  have ⟨_, ⟨_, ho, hw⟩, he⟩ := he
  subst ho
  have ⟨_, hw, hwe⟩ := mem_map.mp hw
  have ⟨⟨type, blocks⟩, hm, ht⟩ := mem_map.mp hw
  subst ht hwe
  have ⟨(c : String × Value), (hc : c ∈ blocks), hce⟩ := mem_map.mp he
  subst hce
  have hf := hg.blocks type blocks <| Dict.get?_eq_some_iff hg.nodup |>.mpr hm
  have ⟨r, hr, _, hb⟩ := exists_of_forall₂_right hf hc
  have ⟨hr, ht⟩ := mem_filter.mp hr
  refine ⟨r, hr, fun hk => ?_, hb⟩
  simp [hk, typeName?] at ht

theorem providerEntries_eq (h : body g = .ok v) : ∃ entries : List Value,
    Forall₂ (fun r e => providerEntry r = .ok e) (g.resources.filter (·.kind = .provider)) entries ∧
      providerEntries v = entries := by
  have ⟨entries, hf, hp⟩ := body_providers h
  refine ⟨entries, hf, ?_⟩
  rw [providerEntries, hp]
  cases entries
  case nil  => rfl
  case cons => exact append_nil _

-- The resource is a provider with a placeholder among its arguments.
def Leaves (r : Resource) : Prop :=
  r.kind = .provider ∧ ∃ t ∈ (Value.object (Dict.ofEntries r.properties)).texts, HasPlaceholder t

theorem not_block_placeholder {e : Value} (h : block g r = .ok e) (hp : Plain r.properties)
    (ha : ∀ id, id ∈ g.orderingHints r.id ∨ r.provider = some id → Ident.isAddressable id) :
    ¬∃ t ∈ e.texts, HasPlaceholder t := by
  have ⟨ps, hps, _, he⟩ := block_ok h hp
  rw [he, Value.exists_text_append,
    Emission.exists_placeholder_iff (fun _ => closed_reference g) hps]
  intro h
  obtain ⟨_, _, p, hp, hpr⟩ | ⟨t, ht, hpl⟩ := h
  · exact not_isPlaceholder_reference g (inText_wellFormed hp) hpr
  · have ⟨id, hi, he⟩ := mem_metaArguments_texts ht
    have ⟨type, ha', hd, _⟩ := address_eq g id
    have hm := hpl.dollar_mem
    rw [he, ha'] at hm
    simp only [String.toList_append, mem_append, hd, false_or] at hm
    exact hm.elim (by decide) <| Ident.notMem_of_isAddressable (ha id hi) (by decide)

-- The arguments of a provider are in its entry as they are.
theorem providerEntry_placeholder_iff {e : Value} (h : providerEntry r = .ok e)
    (hk : r.kind = .provider) (ha : Ident.isAddressable r.id) :
    (∃ t ∈ e.texts, HasPlaceholder t) ↔ Leaves r := by
  obtain ⟨ps, hps, he⟩ := bind_ok_iff.mp h
  have hpe : ps = r.properties := by
    simpa [Emission.excluded, hk, Dict.eraseAll] using Emission.prepare_ok hps
  have hi : ¬HasPlaceholder r.id := fun hp =>
    Ident.notMem_of_isAddressable ha (by decide) hp.dollar_mem
  cases he
  simp only [Leaves, hk, true_and, Value.texts, Value.mem_textsOfFields, hpe, Dict.mem_ofEntries,
    Dict.mem_insertAll (t := [("alias", Value.string r.id)]) (nodup_singleton _)]
  constructor
  case mp =>
    rintro ⟨t, ⟨e, he, ht⟩, hp⟩
    cases he
    case inl he => exact ⟨t, ⟨e, he, ht⟩, hp⟩
    case inr he =>
      rw [mem_singleton.mp he.left] at ht
      have hti : t = r.id := by simpa [Value.texts] using ht
      exact hi (hti ▸ hp) |>.elim
  case mpr =>
    rintro ⟨t, ⟨e, he, ht⟩, hp⟩
    exact ⟨t, ⟨e, .inl he, ht⟩, hp⟩

end Terraform

namespace Backend

-- What a document has for resources and providers.
def entries (b : Backend) (body : Value) : List Value :=
  match b with
  | .pulumi    => Pulumi.entries body
  | .terraform => Terraform.entries body

def Leaves (b : Backend) (r : Resource) : Prop :=
  match b with
  | .pulumi    => Pulumi.Leaves r
  | .terraform => Terraform.Leaves r

end Backend

namespace Compiled

variable {x : Expansion} {order : List Nat}

theorem pulumi_placeholder_iff (c : Compiled s x order g) (h : Pulumi.body g = .ok v) :
    (∃ e ∈ Pulumi.entries v, ∃ t ∈ e.texts, HasPlaceholder t) ↔
      ∃ r ∈ g.resources, Pulumi.Leaves r := by
  have ⟨entries, hv, _, hf⟩ := Pulumi.body_entries h c.ids_nodup
  have he : Pulumi.entries v = entries.map (·.2) := by
    rw [Pulumi.entries, hv]
    exact append_nil _
  simp only [he, mem_map, exists_exists_and_eq_and]
  refine (exists_iff_of_forall₂ hf fun r hr e _ ⟨_, he⟩ => ?_).symm
  exact (Pulumi.entry_placeholder_iff he fun _ => c.addressable_of_stated hr).symm

theorem terraform_placeholder_iff (c : Compiled s x order g) (hv : Terraform.body g = .ok v) :
    (∃ e ∈ Terraform.entries v, ∃ t ∈ e.texts, HasPlaceholder t) ↔
      ∃ r ∈ g.resources, Terraform.Leaves r := by
  have hb : ¬∃ e ∈ Terraform.blockEntries v, ∃ t ∈ e.texts, HasPlaceholder t := by
    rintro ⟨e, he, h⟩
    obtain ⟨r, hr, hk, he⟩ := Terraform.exists_of_mem_blockEntries hv c.ids_nodup he
    have hp := Stack.expand_plain c.expand (c.perm.mem_iff.mp hr) hk
    exact Terraform.not_block_placeholder he hp (fun _ => c.addressable_of_stated hr) h
  obtain ⟨entries, hf, he⟩ := Terraform.providerEntries_eq hv
  have hp : (∃ r ∈ g.resources.filter (·.kind = .provider), Terraform.Leaves r) ↔
      ∃ e ∈ entries, ∃ t ∈ e.texts, HasPlaceholder t := by
    refine exists_iff_of_forall₂ hf fun r hr e _ he => ?_
    obtain ⟨hr, hk⟩ := mem_filter.mp hr
    have ha := c.addressable <| mem_map_of_mem hr
    exact Terraform.providerEntry_placeholder_iff he (by simpa using hk) ha |>.symm
  simp only [Terraform.entries, mem_append, or_and_right, exists_or, hb, false_or, he, ← hp,
    mem_filter, decide_eq_true_eq]
  constructor
  case mp =>
    rintro ⟨r, ⟨hr, _⟩, hl⟩
    exact ⟨r, hr, hl⟩
  case mpr =>
    rintro ⟨r, hr, hl⟩
    exact ⟨r, ⟨hr, hl.left⟩, hl⟩

end Compiled

-- Placeholders are left in a document only by the resources that leave them.
theorem Stack.emit_placeholder_iff {d : Document} (h : s.compile = .ok g) (hd : g.emit b = .ok d) :
    (∃ e ∈ b.entries d.body, ∃ t ∈ e.texts, HasPlaceholder t) ↔ ∃ r ∈ g.resources, b.Leaves r := by
  have ⟨x, order, c⟩ := compile_compiled h
  cases b
  case pulumi    => exact c.pulumi_placeholder_iff (Graph.emit_ok hd)
  case terraform => exact c.terraform_placeholder_iff (Graph.emit_ok hd)

-- A provider whose token refers to a group.
def providerOfGroup : Stack :=
  { (default : Stack) with
    providers := [
      ("databricks", { plugin := "databricks", arguments := [] }),
      ("spare", {
        plugin    := "databricks"
        arguments := [("token", .string "$\x7bresources.group-a.id\x7d")] })]
    resources := { (default : Sections) with
      groups := [{ (default : Group) with displayName := "a" }] } }

theorem hasPlaceholder_token : HasPlaceholder "$\x7bresources.group-a.id\x7d" :=
  have hp : ⟨"group-a", some "id"⟩ ∈ inText "$\x7bresources.group-a.id\x7d" := by decide +kernel
  ⟨_, inText_wellFormed hp, [], [], by decide +kernel⟩

-- Its program has the reference in place of the placeholder.
theorem emit_placeholder_iff_providerOfGroup : ∃ g d, providerOfGroup.compile = .ok g ∧
    g.emit .pulumi = .ok d ∧ (∃ r ∈ g.resources, Terraform.Leaves r) ∧
      ¬∃ e ∈ Pulumi.entries d.body, ∃ t ∈ e.texts, HasPlaceholder t := by
  let g := providerOfGroup.compile.toOption.getD default
  let d := (g.emit .pulumi).toOption.getD default
  have hg : providerOfGroup.compile = .ok g := eq_ok_of_isSome (by decide +kernel)
  have hd : g.emit .pulumi = .ok d := eq_ok_of_isSome (by decide +kernel)
  have hr : ∀ r ∈ g.resources, ∀ t ∈ Emission.carriedTexts r .pulumi Pulumi.camelCase,
      ∀ p ∈ inText t, p.resource ≠ "resources" := by
    decide +kernel
  have ⟨r, hm, hk, t, ht, hl⟩ : ∃ r ∈ g.resources, r.kind = .provider ∧
      ∃ t ∈ (Value.object (Dict.ofEntries r.properties)).texts,
        t = "$\x7bresources.group-a.id\x7d" := by
    decide +kernel
  refine ⟨g, d, hg, hd, ⟨r, hm, hk, t, ht, hl ▸ hasPlaceholder_token⟩, fun h => ?_⟩
  have ⟨r, hm, t, ht, p, hp, he, _⟩ := Stack.emit_placeholder_iff hg hd |>.mp h
  exact hr r hm t ht p hp he

-- Its configuration has the placeholder.
theorem placeholder_left_in_provider : ∃ g d, providerOfGroup.compile = .ok g ∧
    g.emit .terraform = .ok d ∧ ∃ e ∈ Terraform.entries d.body, ∃ t ∈ e.texts, HasPlaceholder t := by
  let g := providerOfGroup.compile.toOption.getD default
  let d := (g.emit .terraform).toOption.getD default
  have hg : providerOfGroup.compile = .ok g := eq_ok_of_isSome (by decide +kernel)
  have hd : g.emit .terraform = .ok d := eq_ok_of_isSome (by decide +kernel)
  have ⟨e, he, ht⟩ : ∃ e ∈ Terraform.entries d.body,
      "$\x7bresources.group-a.id\x7d" ∈ e.texts := by
    decide +kernel
  exact ⟨g, d, hg, hd, e, he, _, ht, hasPlaceholder_token⟩

end Lakehouse
