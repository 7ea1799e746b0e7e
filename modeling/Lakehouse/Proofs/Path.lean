import Lakehouse.Proofs.Placeholder
import Lakehouse.Proofs.Texts

namespace Lakehouse

open List

-- A step from a value to one of its parts.
inductive Step where
  | field (key : String)
  | item (i : Nat)
  deriving DecidableEq, Repr

-- A path begins with the key of a property.
structure Path where
  first : String
  rest  : List Step
  deriving DecidableEq, Repr

variable {σ τ : List Step} {p q : Path} {v : Value} {key : String} {i : Nat}

-- A key that a path can be written with.
def IsKey (key : String) : Prop :=
  ∀ c ∈ key.toList, Ident.isIdentChar c

instance : Decidable (IsKey key) :=
  decidable_of_iff (key.toList.all Ident.isIdentChar) all_eq_true

namespace Step

def text : Step → String
  | field key => "." ++ key
  | item i    => "[" ++ toString i ++ "]"

def keys : List Step → List String
  | []             => []
  | field key :: σ => key :: keys σ
  | item _ :: σ    => keys σ

-- What some steps are written with.
def chars (σ : List Step) : List Char :=
  σ.flatMap fun step => step.text.toList

@[simp]
theorem chars_nil : chars [] = [] :=
  rfl

theorem chars_field : chars (field key :: σ) = '.' :: (key.toList ++ chars σ) := by
  simp [chars, text]

theorem chars_item : chars (item i :: σ) = '[' :: ((toString i).toList ++ ']' :: chars σ) := by
  simp [chars, text]

-- A step begins with a character that no key has.
theorem exists_chars (σ : List Step) :
    chars σ = [] ∨ ∃ c rest, chars σ = c :: rest ∧ (c = '.' ∨ c = '[') := by
  match σ with
  | []           => exact .inl rfl
  | field _ :: _ => exact .inr ⟨_, _, chars_field, .inl rfl⟩
  | item _ :: _  => exact .inr ⟨_, _, chars_item, .inr rfl⟩

theorem isDigit_of_mem {c : Char} (h : c ∈ (toString i).toList) : c.isDigit := by
  rw [Nat.toString_eq_ofList_toDigits, String.toList_ofList] at h
  exact Nat.isDigit_of_mem_toDigits (Nat.succ_pos 9) (Nat.le_refl 10) h

theorem isKey_toString (i : Nat) : IsKey (toString i) := by
  intro c hc
  simp [Ident.isIdentChar, Char.isAlphanum, isDigit_of_mem hc]

theorem toString_inj {j : Nat} (h : toString i = toString j) : i = j := by
  have hd := congrArg (fun digits => Nat.ofDigitChars 10 (String.toList digits) 0) h
  simpa [Nat.toString_eq_ofList_toDigits, Nat.ofDigitChars_toDigits] using hd

-- A key ends where the next step begins.
theorem takeWhile_chars (hk : IsKey key) :
    (key.toList ++ chars σ).takeWhile Ident.isIdentChar = key.toList := by
  obtain he | ⟨c, rest, he, hc⟩ := exists_chars σ
  case inl => rw [he, append_nil, takeWhile_eq_self_iff.mpr hk]
  case inr =>
    have hn : Ident.isIdentChar c = false := by obtain rfl | rfl := hc <;> decide
    exact he ▸ Placeholder.takeWhile_run _ c rest hn hk

theorem chars_inj (hs : ∀ k ∈ keys σ, IsKey k) (ht : ∀ k ∈ keys τ, IsKey k)
    (h : chars σ = chars τ) : σ = τ := by
  induction σ generalizing τ
  case nil =>
    match τ with
    | []           => rfl
    | field _ :: _ => simp [chars_field] at h
    | item _ :: _  => simp [chars_item] at h
  case cons s σ ih =>
    match s, τ with
    | field _, []           => simp [chars_field] at h
    | item _,  []           => simp [chars_item] at h
    | field _, item _ :: _  => simp [chars_field, chars_item] at h
    | item _,  field _ :: _ => simp [chars_field, chars_item] at h
    | field k, field l :: τ =>
      obtain ⟨hk, hs⟩ := forall_mem_cons.mp hs
      obtain ⟨hl, ht⟩ := forall_mem_cons.mp ht
      rw [chars_field, chars_field, cons.injEq] at h
      have he := congrArg (takeWhile Ident.isIdentChar) h.right
      rw [takeWhile_chars hk, takeWhile_chars hl] at he
      rw [he] at h
      rw [String.toList_inj.mp he, ih hs ht (append_cancel_left h.right)]
    | item i, item j :: τ =>
      have hb : ∀ n : Nat, ']' ∉ (toString n).toList :=
        fun n hm => absurd (isDigit_of_mem hm) (by decide)
      rw [chars_item, chars_item, cons.injEq] at h
      have he := Placeholder.eq_of_append_cons_eq (hb i) (hb j) h.right
      rw [he] at h
      have hr : σ = τ := ih hs ht (cons.inj <| append_cancel_left h.right).right
      rw [toString_inj (String.toList_inj.mp he), hr]

end Step

namespace Path

def steps (p : Path) : List Step :=
  .field p.first :: p.rest

def keys (p : Path) : List String :=
  Step.keys p.steps

def text (p : Path) : String :=
  p.first ++ String.join (p.rest.map Step.text)

theorem toList_text : p.text.toList = p.first.toList ++ Step.chars p.rest := by
  simp [text, Step.chars, String.toList_join, flatMap_map]

-- A path that can be written, so that it is read as an attribute.
structure Written (p : Path) : Prop where
  keys     : ∀ k ∈ p.keys, IsKey k
  ne_empty : p.text ≠ ""

theorem steps_inj (h : p.steps = q.steps) : p = q := by
  obtain ⟨_, _⟩ := p
  obtain ⟨_, _⟩ := q
  simpa [steps] using h

theorem text_inj (hp : ∀ k ∈ p.keys, IsKey k) (hq : ∀ k ∈ q.keys, IsKey k) :
    p.text = q.text ↔ p = q := by
  constructor
  case mpr => exact congrArg text
  case mp =>
    intro h
    obtain ⟨hp, hps⟩ := forall_mem_cons.mp hp
    obtain ⟨hq, hqs⟩ := forall_mem_cons.mp hq
    rw [← String.toList_inj, toList_text, toList_text] at h
    have he := congrArg (takeWhile Ident.isIdentChar) h
    rw [Step.takeWhile_chars hp, Step.takeWhile_chars hq] at he
    rw [he] at h
    have hr := Step.chars_inj hps hqs (append_cancel_left h)
    exact steps_inj <| by rw [steps, steps, String.toList_inj.mp he, hr]

open Placeholder in
theorem isPathChar_chars (hs : ∀ k ∈ Step.keys σ, IsKey k) :
    ∀ c ∈ Step.chars σ, isPathChar c := by
  have hi : ∀ {k : String}, IsKey k → ∀ c ∈ k.toList, isPathChar c :=
    fun hk c hc => by simp [isPathChar, hk c hc]
  induction σ
  case nil => simp
  case cons s σ ih =>
    cases s
    case field k =>
      obtain ⟨hk, hs⟩ := forall_mem_cons.mp hs
      rw [Step.chars_field]
      exact forall_mem_cons.mpr ⟨rfl, forall_mem_append.mpr ⟨hi hk, ih hs⟩⟩
    case item i =>
      rw [Step.chars_item]
      refine forall_mem_cons.mpr ⟨rfl, forall_mem_append.mpr ⟨hi (Step.isKey_toString i), ?_⟩⟩
      exact forall_mem_cons.mpr ⟨rfl, ih hs⟩

open Placeholder in
theorem Written.isAttribute (h : p.Written) : IsAttribute p.text where
  ne_empty := h.ne_empty
  chars    := by
    obtain ⟨hf, hr⟩ := forall_mem_cons.mp h.keys
    rw [toList_text]
    refine forall_mem_append.mpr ⟨fun c hc => ?_, isPathChar_chars hr⟩
    simp [isPathChar, hf c hc]

end Path

namespace Value

-- What a value has at the end of some steps.
def at? : Value → List Step → Option Value
  | v, []            => some v
  | v, .field k :: σ => (v.field? k).bind (at? · σ)
  | v, .item i :: σ  => (v.array?.bind (·[i]?)).bind (at? · σ)

end Value

namespace Placeholder

variable {reference : Placeholder → String}

theorem substituteItems_eq (items : List Value) :
    substituteItems reference items = items.map (substitute reference) := by
  induction items
  case nil             => rfl
  case cons v items ih => rw [substituteItems, ih, map_cons]

theorem substituteFields_eq (fields : List (String × Value)) :
    substituteFields reference fields = Dict.mapValues (substitute reference) fields := by
  induction fields
  case nil              => rfl
  case cons e fields ih => rw [substituteFields, ih]; rfl

-- Substitution changes no place.
theorem at?_substitute : (substitute reference v).at? σ = (v.at? σ).map (substitute reference) := by
  induction σ generalizing v
  case nil => rfl
  case cons s σ ih =>
    cases s
    case field k =>
      have hf : (substitute reference v).field? k = (v.field? k).map (substitute reference) := by
        cases v <;> try rfl
        case object fields =>
          simp only [substitute, substituteFields_eq]
          exact Dict.get?_mapValues
      rw [Value.at?, Value.at?, hf]
      cases v.field? k <;> simp [ih]
    case item i =>
      have ha : (substitute reference v).array?.bind (·[i]?) =
          (v.array?.bind (·[i]?)).map (substitute reference) := by
        cases v <;> try rfl
        case array items =>
          simp only [substitute, substituteItems_eq]
          exact getElem?_map
      rw [Value.at?, Value.at?, ha]
      cases v.array?.bind (·[i]?) <;> simp [ih]

end Placeholder

end Lakehouse
