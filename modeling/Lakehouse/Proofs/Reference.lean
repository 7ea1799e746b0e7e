import Lakehouse.Emission.Pulumi
import Lakehouse.Emission.Terraform
import Lakehouse.Proofs.Grammar

namespace Lakehouse

open List

namespace Text

-- The characters with an upper case of several characters are not ASCII.
theorem longUppercase_far : ∀ e ∈ longUppercase, 128 ≤ e.1 := by
  decide +kernel

-- Nor are those with an upper case of one character, but for the letters.
theorem caseRuns_far : ∃ runs, caseRuns.toList = ⟨0x61, 0x7A, 1, -32⟩ :: runs ∧
    ∀ run ∈ runs, 128 ≤ run.first :=
  ⟨_, rfl, by decide +kernel⟩

theorem uppercase_ascii {c : Char} (h : c.toNat < 128) : uppercase c =
    if 0x61 ≤ c.toNat ∧ c.toNat ≤ 0x7A then [Char.ofNat (c.toNat - 32)] else [c] := by
  have ⟨runs, hr, hf⟩ := caseRuns_far
  have hl : longUppercase.find? (·.1 == c.toNat) = none := by
    rw [Array.find?_eq_none]
    intro e he
    have hk := longUppercase_far e he
    simp only [beq_iff_eq]
    omega
  have hn : runs.find? (·.contains c.toNat) = none := by
    rw [List.find?_eq_none]
    intro run hrun
    have hk := hf run hrun
    simp only [CaseRun.contains, Bool.and_eq_true, decide_eq_true_eq, not_and]
    omega
  have hc : CaseRun.contains ⟨0x61, 0x7A, 1, -32⟩ c.toNat =
      decide (0x61 ≤ c.toNat ∧ c.toNat ≤ 0x7A) := by
    simp [CaseRun.contains, Nat.mod_one]
  have hs : 0x61 ≤ c.toNat → (c.toNat + -32 : Int).toNat = c.toNat - 32 := by omega
  simp only [uppercase, hl, ← Array.find?_toList, hr, List.find?_cons, hc, hn]
  by_cases hi : 0x61 ≤ c.toNat ∧ c.toNat ≤ 0x7A
  case pos => simp only [decide_true, if_true, hi, and_self, hs]
  case neg => simp only [decide_false, if_false, hi]

-- The upper case of an ASCII character is itself or a letter.
theorem mem_uppercase {c d : Char} (h : c.toNat < 128) (hd : d ∈ uppercase c) :
    d = c ∨ ∃ n < 26, d = Char.ofNat (0x41 + n) := by
  rw [uppercase_ascii h] at hd
  split at hd <;> cases mem_singleton.mp hd
  case isTrue hi =>
    have hn : c.toNat - 32 = 0x41 + (c.toNat - 0x61) := by omega
    exact .inr ⟨c.toNat - 0x61, by omega, by rw [hn]⟩
  case isFalse => exact .inl rfl

-- Paths are ASCII, and so is their upper case.
theorem isPathChar_uppercase {c d : Char} (h : Placeholder.isPathChar c) (hd : d ∈ uppercase c) :
    Placeholder.isPathChar d := by
  have hu : ∀ n < 26, Placeholder.isPathChar (Char.ofNat (0x41 + n)) := by decide
  obtain rfl | ⟨n, hn, rfl⟩ := mem_uppercase (Placeholder.isPathChar_lt h) hd
  case inl => exact h
  case inr => exact hu n hn

end Text

namespace Pulumi

open Placeholder

variable {id s t path : String} {p : Placeholder}

-- The text refers to a resource, or to an attribute of it.
def Refers (id t : String) : Prop :=
  Text.Within ("$\x7b" ++ id ++ "\x7d") t ∨
    ∃ path, IsAttribute path ∧ Text.Within ("$\x7b" ++ id ++ "." ++ path ++ "\x7d") t

theorem isPathChar_camelRest {cs : List Char} {upper : Bool} (h : ∀ c ∈ cs, isPathChar c) :
    ∀ c ∈ camelRest upper cs, isPathChar c := by
  induction cs generalizing upper
  case nil => simp [camelRest]
  case cons c cs ih =>
    have ⟨hc, hs⟩ := forall_mem_cons.mp h
    simp only [camelRest]
    split
    · exact ih hs
    · split
      · exact fun d hd => (mem_append.mp hd).elim (Text.isPathChar_uppercase hc) (ih hs d)
      · exact forall_mem_cons.mpr ⟨hc, ih hs⟩

theorem camelCase_attribute (h : IsAttribute path) : IsAttribute (camelCase path) := by
  have hc := h.chars
  simp only [camelCase]
  split
  case h_1 he => exact h.ne_empty (String.toList_eq_nil_iff.mp he) |>.elim
  case h_2 c cs he =>
    have ⟨hc, hs⟩ := forall_mem_cons.mp <| he ▸ hc
    refine ⟨by simp, ?_⟩
    rw [String.toList_ofList]
    exact forall_mem_cons.mpr ⟨hc, isPathChar_camelRest hs⟩

theorem refers_substituteText (h : p ∈ inText s) :
    Refers p.resource (substituteText reference s) := by
  have hw := within_substituteText (f := reference) h
  cases hp : p.path
  case none      => exact .inl <| by simpa [reference, hp] using hw
  case some path =>
    refine .inr ⟨camelCase path, camelCase_attribute <| inText_attribute h hp, ?_⟩
    simpa [reference, hp] using hw

-- What a native reference says.
def native (p : Placeholder) : Placeholder where
  resource := p.resource
  path     := p.path.map camelCase

theorem native_wellFormed (h : p.WellFormed) : (native p).WellFormed where
  resource := h.resource
  path     := by
    intro path hp
    have ⟨_, hpp, he⟩ := Option.map_eq_some_iff.mp hp
    exact he ▸ camelCase_attribute (h.path _ hpp)

theorem toList_reference :
    (reference p).toList = '$' :: ('\x7b' :: (native p).named ++ ['\x7d']) := by
  cases h : p.path <;> simp [reference, native, named, h]

theorem closed_reference (h : p.WellFormed) : Closed (reference p).toList := by
  have hn := native_wellFormed h
  refine ⟨_, toList_reference, ?_, ?_⟩
  · exact not_mem_cons_of_ne_of_not_mem (by decide) <| notMem_named hn (by decide)
  · exact not_mem_cons_of_ne_of_not_mem (by decide) <| notMem_named hn (by decide)

-- Only a reference to an attribute of what is called `resources` looks like a placeholder.
theorem of_isPlaceholder_reference (hp : p.WellFormed) (h : IsPlaceholder (reference p)) :
    p.resource = "resources" ∧ p.path.isSome := by
  have ⟨q, _, he⟩ := h
  have hd : '.' ∉ p.resource.toList := Ident.notMem_of_isAddressable hp.resource (by decide)
  rw [← String.toList_inj, toList_text, toList_reference, opening_eq] at he
  simp only [cons_append, append_assoc, cons.injEq, true_and, nil_append] at he
  cases hpp : p.path
  case none =>
    have hm : '.' ∈ p.resource.toList ++ ['\x7d'] := by
      simp only [native, named, hpp, Option.map_none, Option.elim, append_nil] at he
      exact he ▸ by simp
    simp [hd] at hm
  case some path =>
    simp only [native, named, hpp, Option.map_some, Option.elim, append_assoc, cons_append] at he
    exact ⟨String.toList_inj.mp <| eq_of_append_cons_eq hd (by decide) he.symm, rfl⟩

end Pulumi

namespace Terraform

open Placeholder

variable {g : Graph} {id s t : String} {p : Placeholder}

-- The text refers to an attribute of a resource.
def Refers (g : Graph) (id t : String) : Prop :=
  ∃ path, IsAttribute path ∧ Text.Within ("$\x7b" ++ address g id ++ "." ++ path ++ "\x7d") t

theorem refers_substituteText (h : p ∈ inText s) :
    Refers g p.resource (substituteText (reference g) s) := by
  have hw := within_substituteText (f := reference g) h
  rw [reference] at hw
  refine ⟨p.path.getD "id", ?_, hw⟩
  cases hp : p.path
  case none      => exact isAttribute_id
  case some path => exact inText_attribute h hp

theorem Refers.dollar_mem (h : Refers g id t) : '$' ∈ t.toList := by
  have ⟨_, _, hw⟩ := h
  exact hw.mem <| by simp

-- What stands in front of an id in its address.
def IsTypeName (type : String) : Prop :=
  type = "databricks" ∨ ∃ kind, typeName? kind = some type

theorem IsTypeName.chars {type : String} (h : IsTypeName type) :
    '$' ∉ type.toList ∧ '.' ∉ type.toList ∧ '\x7d' ∉ type.toList ∧ type ≠ "resources" := by
  obtain h | ⟨kind, h⟩ := h
  · exact h ▸ by decide +kernel
  · cases kind <;> cases h <;> decide +kernel

theorem address_typed (g : Graph) (id : String) :
    ∃ type, address g id = type ++ "." ++ id ∧ IsTypeName type := by
  refine ⟨_, rfl, ?_⟩
  cases h : typeOf? g id
  case none => exact .inl rfl
  case some type =>
    have ⟨r, _, hr⟩ := mem_filterMap.mp <| mem_of_getLast? h
    split at hr
    case isTrue  => exact .inr ⟨r.kind, hr⟩
    case isFalse => contradiction

theorem address_eq (g : Graph) (id : String) :
    ∃ type, address g id = type ++ "." ++ id ∧ '$' ∉ type.toList ∧ '.' ∉ type.toList :=
  have ⟨type, he, ht⟩ := address_typed g id
  ⟨type, he, ht.chars.left, ht.chars.right.left⟩

theorem address_inj {a b : String} (ha : Ident.isAddressable a) (h : address g a = address g b) :
    a = b := by
  have ⟨type, he, _, hd⟩ := address_eq g a
  have ⟨type', he', _, _⟩ := address_eq g b
  rw [he, he', ← String.toList_inj] at h
  simp only [String.toList_append, append_assoc] at h
  have hi := append_cons_inj_of_notMem hd (Ident.notMem_of_isAddressable ha (by decide)) |>.mp h
  exact String.toList_inj.mp hi.right.right

-- An address alone is no reference.
theorem not_refers_address {a : String} (ha : Ident.isAddressable a) : ¬Refers g id (address g a) := by
  intro h
  have ⟨type, he, hd, _⟩ := address_eq g a
  have hm := h.dollar_mem
  rw [he] at hm
  simp only [String.toList_append, mem_append] at hm
  obtain (hm | hm) | hm := hm
  · exact hd hm
  · exact absurd hm (by decide)
  · exact Ident.notMem_of_isAddressable ha (by decide) hm

theorem exists_reference (g : Graph) (h : p.WellFormed) : ∃ type path, IsTypeName type ∧
    IsAttribute path ∧ (reference g p).toList =
      '$' :: ('\x7b' :: type.toList ++ '.' :: (p.resource.toList ++ '.' :: path.toList) ++ ['\x7d']) := by
  have ⟨type, he, ht⟩ := address_typed g p.resource
  refine ⟨type, p.path.getD "id", ht, ?_, by simp [reference, he]⟩
  cases hp : p.path
  case none      => exact isAttribute_id
  case some path => exact h.path path hp

theorem closed_reference (g : Graph) (h : p.WellFormed) : Closed (reference g p).toList := by
  have ⟨type, path, ht, hp, he⟩ := exists_reference g h
  have ⟨hd, _, hc, _⟩ := ht.chars
  have hn : ∀ c, ¬isPathChar c → c ≠ '\x7b' → c ∉ type.toList →
      c ∉ '\x7b' :: type.toList ++ '.' :: (p.resource.toList ++ '.' :: path.toList) := by
    intro c hc hb ht
    have hr := notMem_named (p := ⟨p.resource, some path⟩)
      ⟨h.resource, fun _ he => Option.some.inj he ▸ hp⟩ hc
    have hdot : c ≠ '.' := fun hd => hc <| hd ▸ rfl
    simpa [hb, ht, hdot, named] using hr
  exact ⟨_, he, hn '$' (by decide) (by decide) hd, hn '\x7d' (by decide) (by decide) hc⟩

-- No type is called `resources`.
theorem not_isPlaceholder_reference (g : Graph) (h : p.WellFormed) :
    ¬IsPlaceholder (reference g p) := by
  intro ⟨q, _, he⟩
  have ⟨type, path, ht, _, hr⟩ := exists_reference g h
  have ⟨_, hd, _, hne⟩ := ht.chars
  rw [← String.toList_inj, toList_text, hr, opening_eq] at he
  simp only [cons_append, append_assoc, cons.injEq, true_and, nil_append] at he
  exact hne <| String.toList_inj.mp <| eq_of_append_cons_eq hd (by decide) he.symm

end Terraform

end Lakehouse
