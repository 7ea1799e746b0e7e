import Lakehouse.Resource
import Mathlib.Data.List.Nodup
import Mathlib.Logic.Function.Basic

namespace Lakehouse

open List Function

namespace Codec

variable {α β τ : Type} {c : Codec α}

theorem text_injective : Injective text.write :=
  fun _ _ h => Value.string.inj h

theorem flag_injective : Injective flag.write :=
  fun _ _ h => Value.bool.inj h

theorem list_injective (hc : Injective c.write) : Injective c.list.write :=
  fun _ _ h => hc.list_map <| Value.array.inj h

theorem dict_injective (hc : Injective c.write) : Injective c.dict.write := by
  intro t t' h
  have hm : Injective fun e : String × α => (e.1, c.write e.2) :=
    fun _ _ he => Prod.ext (Prod.mk.inj he).left <| hc (Prod.mk.inj he).right
  exact hm.list_map <| Value.object.inj h

-- What is not there is written as `null`, as nothing else may be.
theorem optional_injective (hc : Injective c.write) (hn : ∀ a, c.write a ≠ .null) :
    Injective c.optional.write := by
  intro a b h
  cases a <;> cases b
  case none.none      => rfl
  case none.some b    => exact (hn b h.symm).elim
  case some.none a    => exact (hn a h).elim
  case some.some a b  => exact congrArg some <| hc h

theorem choice_injective {members : List α} {word : α → String} (hm : ∀ a, a ∈ members)
    (hn : (members.map word).Nodup) : Injective (choice members word).write :=
  fun a b h => inj_on_of_nodup_map hn (hm a) (hm b) <| Value.string.inj h

end Codec

-- A record has no other keys than the names of its fields, in their order.
theorem Fields.write_keys {τ : Type} {fields : Fields τ} {t : τ} :
    Dict.keys (fields.write t) <+ fields.names := by
  induction fields
  case nil => exact .slnil
  case cons f rest ih =>
    obtain ⟨a, b⟩ := t
    simp only [write, Field.write, names]
    split
    case isTrue  => exact ih.cons _
    case isFalse => exact ih.cons_cons _

-- Every field is written, and tells its values apart.
inductive Fields.Telling : {τ : Type} → Fields τ → Prop
  | nil : Telling .nil
  | cons {α β : Type} {f : Field α} {rest : Fields β} (kept : ∀ a, f.omits a = false)
      (field : Injective f.codec.write) : Telling rest → Telling (.cons f rest)

theorem Fields.Telling.write_injective {τ : Type} {fields : Fields τ} (t : fields.Telling) :
    Injective fields.write := by
  induction t
  case nil => exact fun _ _ _ => rfl
  case cons hk hf _ ih =>
    intro (a, b) (a', b') h
    simp only [write, Field.write, hk, Bool.false_eq_true, if_false, singleton_append,
      List.cons.injEq, Prod.mk.injEq, true_and] at h
    rw [hf h.left, ih h.right]

theorem Codec.record_injective {α τ : Type} {fields : Fields τ} {make : τ → α} {parts : α → τ}
    (t : fields.Telling) (hp : Injective parts) : Injective (record fields make parts).write :=
  fun _ _ h => hp <| t.write_injective <| Value.object.inj h

theorem Kind.mem_all (k : Kind) : k ∈ all := by
  cases k <;> decide

theorem Kind.codec_injective : Injective codec.write :=
  Codec.choice_injective mem_all (by decide +kernel)

theorem DeletionPolicy.codec_injective : Injective codec.write :=
  Codec.choice_injective (fun p => by cases p <;> decide) (by decide +kernel)

-- Different resources are written differently.
theorem Resource.codec_injective : Injective codec.write := by
  refine Codec.record_injective ?fields ?parts
  case fields =>
    have ho : Injective Codec.text.optional.write :=
      Codec.optional_injective Codec.text_injective nofun
    have hf : Injective Codec.free.dict.write := Codec.dict_injective injective_id
    exact .cons (fun _ => rfl) Codec.text_injective <| .cons (fun _ => rfl) Kind.codec_injective <|
      .cons (fun _ => rfl) hf <| .cons (fun _ => rfl) ho <|
      .cons (fun _ => rfl) (Codec.list_injective Codec.text_injective) <| .cons (fun _ => rfl) ho <|
      .cons (fun _ => rfl) DeletionPolicy.codec_injective <|
      .cons (fun _ => rfl) Codec.flag_injective .nil
  case parts =>
    intro r r' h
    cases r
    cases r'
    simp_all

end Lakehouse
