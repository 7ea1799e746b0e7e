import Lakehouse.Proofs.Path
/-!
Places under renaming. What a value has at the end of some steps is moved with the keys on the way,
down to the first one under which the keys belong to the user. It is lost where a later key of the
same object is renamed alike.
-/
namespace Lakehouse

open List

namespace Emission

-- The entry under a key is the only one with it, and none after it is renamed alike.
def Prevails (f : String → String) (fields : Properties) (k : String) : Prop :=
  ∃ before v after, fields = before ++ (k, v) :: after ∧ k ∉ Dict.keys before ∧
    ∀ e ∈ after, f e.1 ≠ f k

-- What is at the end of some steps is put at the end of others when the keys of a value are renamed.
inductive Puts (f : String → String) : Value → List Step → List Step → Prop
  | here {v : Value} : Puts f v [] []
  | item {items : List Value} {i : Nat} {v : Value} {σ τ : List Step} (hv : items[i]? = some v)
      (hp : Puts f v σ τ) : Puts f (.array items) (.item i :: σ) (.item i :: τ)
  | schema {fields : Properties} {k : String} {v : Value} {σ τ : List Step}
      (hk : Prevails f fields k) (ho : k ∉ opaqueKeys) (hv : Dict.get? fields k = some v)
      (hp : Puts f v σ τ) : Puts f (.object fields) (.field k :: σ) (.field (f k) :: τ)
  | user {fields : Properties} {k : String} {σ : List Step} (hk : Prevails f fields k)
      (ho : k ∈ opaqueKeys) : Puts f (.object fields) (.field k :: σ) (.field (f k) :: σ)

end Emission

variable {f g : String → String} {fields : Properties} {σ σ' τ : List Step} {v : Value} {k : String}
variable {reference : Placeholder → String}

namespace Step

-- The keys down to the first one under which they belong to the user.
def schemaKeys : List String → List String
  | []      => []
  | k :: ks => k :: if Emission.opaqueKeys.contains k then [] else schemaKeys ks

-- The keys that belong to the user.
def userKeys : List String → List String
  | []      => []
  | k :: ks => if Emission.opaqueKeys.contains k then ks else userKeys ks

theorem schemaKeys_append (ks : List String) : schemaKeys ks ++ userKeys ks = ks := by
  induction ks
  case nil => rfl
  case cons k ks ih =>
    rw [schemaKeys, userKeys]
    split
    case isTrue  => rfl
    case isFalse => rw [cons_append, ih]

theorem mem_of_mem_schemaKeys {ks : List String} (h : k ∈ schemaKeys ks) : k ∈ ks :=
  schemaKeys_append ks ▸ mem_append_left _ h

theorem mem_of_mem_userKeys {ks : List String} (h : k ∈ userKeys ks) : k ∈ ks :=
  schemaKeys_append ks ▸ mem_append_right _ h

def rename (f : String → String) : Step → Step
  | field k => field (f k)
  | item i  => item i

-- Where renaming the keys of a value moves what is at the end of some steps.
def moved (f : String → String) : List Step → List Step
  | []           => []
  | item i :: σ  => item i :: moved f σ
  | field k :: σ => field (f k) :: if Emission.opaqueKeys.contains k then σ else moved f σ

theorem keys_map_rename : keys (σ.map (rename g)) = (keys σ).map g := by
  induction σ
  case nil => rfl
  case cons s σ ih => cases s <;> simp [rename, keys, ih]

theorem map_rename_eq_self : σ.map (rename g) = σ ↔ ∀ k ∈ keys σ, g k = k := by
  induction σ
  case nil => simp [keys]
  case cons s σ ih => cases s <;> simp [rename, keys, ih]

-- Steps that are renamed throughout are moved to the same place unless their keys tell the renamings apart.
theorem map_rename_eq_moved : σ.map (rename g) = moved f σ ↔
    (∀ k ∈ schemaKeys (keys σ), g k = f k) ∧ ∀ k ∈ userKeys (keys σ), g k = k := by
  induction σ
  case nil => simp [moved, keys, schemaKeys, userKeys]
  case cons s σ ih =>
    cases s
    case item i => simpa [rename, moved, keys] using ih
    case field k =>
      by_cases ho : k ∈ Emission.opaqueKeys
      case pos => simp [rename, moved, keys, schemaKeys, userKeys, ho, map_rename_eq_self]
      case neg => simp [rename, moved, keys, schemaKeys, userKeys, ho, ih, and_assoc]

theorem isKey_moved (hf : ∀ k, IsKey k → IsKey (f k)) (hs : ∀ k ∈ keys σ, IsKey k) :
    ∀ k ∈ keys (moved f σ), IsKey k := by
  induction σ
  case nil => exact hs
  case cons s σ ih =>
    cases s
    case item  => exact ih hs
    case field k =>
      obtain ⟨hk, hs⟩ := forall_mem_cons.mp hs
      refine forall_mem_cons.mpr ⟨hf k hk, ?_⟩
      split
      case isTrue  => exact hs
      case isFalse => exact ih hs

end Step

namespace Emission

theorem renameItems_eq (items : List Value) : renameItems f items = items.map (renameKeys f) := by
  induction items
  case nil             => rfl
  case cons v items ih => rw [renameItems, ih, map_cons]

-- What an entry of an object becomes.
def renameEntry (f : String → String) (e : String × Value) : String × Value :=
  (f e.1, if opaqueKeys.contains e.1 then e.2 else renameKeys f e.2)

theorem renameFields_eq (fields : Properties) :
    renameFields f fields = fields.map (renameEntry f) := by
  induction fields
  case nil              => rfl
  case cons e fields ih => rw [renameFields, ih]; rfl

namespace Prevails

-- Where no two keys are renamed alike, every one of them prevails.
theorem of_nodup (h : (fields.map fun e => f e.1).Nodup) (hk : k ∈ Dict.keys fields) :
    Prevails f fields k := by
  obtain ⟨⟨_, v⟩, he, rfl⟩ := mem_map.mp hk
  obtain ⟨before, after, rfl⟩ := append_of_mem he
  rw [map_append, map_cons, nodup_append] at h
  have ⟨_, ha, hb⟩ := h
  refine ⟨before, v, after, rfl, fun hm => ?_, fun e he hf => ?_⟩
  case refine_1 =>
    obtain ⟨e, he, hf⟩ := mem_map.mp hm
    exact hb _ (mem_map_of_mem he) _ mem_cons_self (congrArg f hf)
  case refine_2 => exact (nodup_cons.mp ha).left <| mem_map.mpr ⟨e, he, hf⟩

theorem get?_renamed (h : Prevails f fields k) (hv : Dict.get? fields k = some v) :
    Dict.get? (Dict.ofEntries (renameFields f fields)) (f k) = some (renameEntry f (k, v)).2 := by
  obtain ⟨before, w, after, rfl, hb, ha⟩ := h
  have hw : w = v := by simpa [Dict.get?_append, Dict.get?_eq_none hb, Dict.get?_cons] using hv
  have hn : f k ∉ Dict.keys (renameFields f after) := by
    rw [renameFields_keys]
    intro hm
    have ⟨e, he, hk⟩ := mem_map.mp hm
    exact ha e he hk
  rw [Dict.get?_eq_some_iff Dict.nodup_ofEntries, Dict.mem_ofEntries]
  rw [renameFields_eq] at hn ⊢
  rw [map_append, map_cons, hw]
  exact Dict.mem_last_of_notMem hn

-- Of two keys that are renamed alike, the first does not prevail.
theorem key_eq (h : Prevails f fields k) {l : String} (hl : Prevails f fields l) (he : f k = f l) :
    k = l := by
  obtain ⟨before, v, after, rfl, _, ha⟩ := h
  obtain ⟨before', w, after', hs, _, ha'⟩ := hl
  obtain ⟨between, _, hs⟩ | ⟨between, _, hs⟩ := append_eq_append_iff.mp hs
  case inl =>
    cases between <;> simp only [nil_append, cons_append, cons.injEq, Prod.mk.injEq] at hs
    case nil  => exact hs.left.left
    case cons => exact ha (l, w) (hs.right ▸ by simp) he.symm |>.elim
  case inr =>
    cases between <;> simp only [nil_append, cons_append, cons.injEq, Prod.mk.injEq] at hs
    case nil  => exact hs.left.left.symm
    case cons => exact ha' (k, v) (hs.right ▸ by simp) he |>.elim

theorem mapValues {h : Value → Value} (hp : Prevails f fields k) :
    Prevails f (Dict.mapValues h fields) k := by
  obtain ⟨before, v, after, rfl, hb, ha⟩ := hp
  refine ⟨Dict.mapValues h before, h v, Dict.mapValues h after, by simp [Dict.mapValues], ?_, ?_⟩
  · rwa [Dict.keys_mapValues]
  · intro e he
    obtain ⟨e', he', hk⟩ := mem_map.mp he
    exact hk ▸ ha e' he'

end Prevails

-- What a value at the end of some steps becomes.
def form (f : String → String) (σ : List Step) (v : Value) : Value :=
  if (Step.keys σ).any opaqueKeys.contains then v else renameKeys f v

theorem form_item {i : Nat} : form f (.item i :: σ) = form f σ :=
  rfl

theorem form_schema (ho : k ∉ opaqueKeys) : form f (.field k :: σ) = form f σ := by
  funext v
  simp [form, Step.keys, ho]

theorem form_user (ho : k ∈ opaqueKeys) : form f (.field k :: σ) = id := by
  funext v
  simp [form, Step.keys, ho]

namespace Puts

theorem eq_moved (h : Puts f v σ τ) : τ = Step.moved f σ := by
  induction h
  case here                      => rfl
  case item hp                   => rw [Step.moved, ← hp]
  case schema ho _ _ hp          => simp [Step.moved, ho, ← hp]
  case user ho                   => simp [Step.moved, ho]

-- Where something is put, its form is found.
theorem at?_renamed (h : Puts f v σ τ) : (renameKeys f v).at? τ = (v.at? σ).map (form f σ) := by
  induction h
  case here => rfl
  case item hv _ ih =>
    simpa [Value.at?, renameKeys, renameItems_eq, Value.array?, hv, form_item] using ih
  case schema hk ho hv _ ih =>
    simpa [Value.at?, renameKeys, Value.field?, Value.object?, hk.get?_renamed hv, hv, renameEntry, ho,
      form_schema ho] using ih
  case user fields k σ hk ho =>
    obtain ⟨v, hv⟩ : ∃ v, Dict.get? fields k = some v := by
      obtain ⟨before, v, after, rfl, hb, _⟩ := hk
      exact ⟨v, by simp [Dict.get?_append, Dict.get?_eq_none hb, Dict.get?_cons]⟩
    simp [Value.at?, renameKeys, Value.field?, Value.object?, hk.get?_renamed hv, hv, renameEntry, ho,
      form_user ho]

-- What is put under a key comes from the one that prevails and is renamed to it.
theorem exists_of_field (h : Puts f (.object fields) σ (.field k :: τ)) :
    ∃ l rest, σ = .field l :: rest ∧ f l = k ∧ Prevails f fields l ∧
      (l ∈ opaqueKeys → rest = τ) ∧
        (l ∉ opaqueKeys → ∃ v, Dict.get? fields l = some v ∧ Puts f v rest τ) := by
  generalize hs : Step.field k :: τ = place at h
  cases h with
  | here => cases hs
  | schema hk ho hv hp =>
    have ⟨he, ht⟩ := cons.inj hs
    exact ⟨_, _, rfl, (Step.field.inj he).symm, hk, fun h => absurd h ho, fun _ => ⟨_, hv, ht ▸ hp⟩⟩
  | user hk ho =>
    have ⟨he, ht⟩ := cons.inj hs
    exact ⟨_, _, rfl, (Step.field.inj he).symm, hk, fun _ => ht.symm, fun h => absurd ho h⟩

-- No two places are put at one.
theorem source_eq (h : Puts f v σ τ) (h' : Puts f v σ' τ) : σ = σ' := by
  induction h generalizing σ'
  case here => cases h'; rfl
  case item hv _ ih =>
    cases h'
    case item hv' hp' => rw [ih <| Option.some.inj (hv.symm.trans hv') ▸ hp']
  case schema hk ho hv _ ih =>
    obtain ⟨l, rest, rfl, he, hl, _, hp⟩ := exists_of_field h'
    obtain rfl := hk.key_eq hl he.symm
    have ⟨v', hv', hp⟩ := hp ho
    rw [ih <| Option.some.inj (hv.symm.trans hv') ▸ hp]
  case user hk ho =>
    obtain ⟨l, rest, rfl, he, hl, hr, _⟩ := exists_of_field h'
    obtain rfl := hk.key_eq hl he.symm
    rw [hr ho]

theorem substitute (h : Puts f v σ τ) : Puts f (Placeholder.substitute reference v) σ τ := by
  induction h
  case here => exact .here
  case item hv _ ih =>
    refine .item ?_ ih
    simp [Placeholder.substituteItems_eq, hv]
  case schema hk ho hv _ ih =>
    rw [Placeholder.substitute, Placeholder.substituteFields_eq]
    exact .schema hk.mapValues ho (by simp [Dict.get?_mapValues, hv]) ih
  case user hk ho =>
    rw [Placeholder.substitute, Placeholder.substituteFields_eq]
    exact .user hk.mapValues ho

end Puts

end Emission

end Lakehouse
