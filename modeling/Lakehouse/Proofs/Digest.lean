import Lakehouse.Digest
import Lakehouse.Proofs.Placeholder
/-!
Fingerprints of texts and files. The components of a fingerprint can be taken apart again, and a file
has the fingerprint of its octets, in however many parts it is read. Where no two inputs collide, the
fingerprint tells what was hashed.
-/
namespace Lakehouse

open List

namespace Digest

-- The components in one, as they are hashed.
def framed (components : List String) : ByteArray :=
  components.foldl (fun bytes s => (bytes ++ s.toUTF8).push 0) ByteArray.empty

theorem push_zero (bytes : ByteArray) : bytes.push 0 = bytes ++ "\x00".toUTF8 := by
  have hz : "\x00".toUTF8.data = #[0] := rfl
  apply ByteArray.ext
  rw [ByteArray.data_push, ByteArray.data_append, hz]
  rfl

-- The octets are those of one text, so that the framing can be taken apart character by character.
theorem framed_eq {xs : List String} :
    framed xs = (String.join (xs.map (· ++ "\x00"))).toUTF8 := by
  have hs : ∀ bytes : ByteArray, xs.foldl (fun bytes s => (bytes ++ s.toUTF8).push 0) bytes =
      bytes ++ (String.join (xs.map (· ++ "\x00"))).toUTF8 := by
    induction xs
    case nil => simp
    case cons x xs ih =>
      intro bytes
      rw [foldl_cons, ih, push_zero]
      simp only [List.map_cons, String.join_cons, String.toUTF8_eq_toByteArray,
        String.toByteArray_append, ByteArray.append_assoc]
  exact hs _ |>.trans ByteArray.empty_append

-- Where no component has a zero character, the first one in the whole ends the first component.
theorem framed_inj {xs ys : List String} (hx : ∀ x ∈ xs, '\x00' ∉ x.toList)
    (hy : ∀ y ∈ ys, '\x00' ∉ y.toList) (h : framed xs = framed ys) : xs = ys := by
  rw [framed_eq, framed_eq] at h
  replace h := congrArg String.toList <| String.toByteArray_inj.mp h
  simp only [String.toList_join, flatMap_map, String.toList_append] at h
  induction xs generalizing ys
  case nil => cases ys <;> simp at h ⊢
  case cons x xs ih =>
    cases ys
    case nil => simp at h
    case cons y ys =>
      have ⟨hx, hxs⟩ := forall_mem_cons.mp hx
      have ⟨hy, hys⟩ := forall_mem_cons.mp hy
      simp only [flatMap_cons, append_assoc] at h
      have he := Placeholder.eq_of_append_cons_eq hx hy h
      rw [he] at h
      rw [String.toList_inj.mp he, ih hxs hys (append_cancel_left (append_cancel_left h))]

theorem notMem_ofText (s : String) : '\x00' ∉ (ofText s).toList := by
  have hd : ∀ n, '\x00' ≠ Nat.digitChar n := fun n h => Nat.digitChar_ne '\x00' (by decide) h.symm
  simp [ofText, ofBytes, Blake3.hash, String.toList_join, Blake3.hexPair, hd]

-- Inputs at the same place of the two lists have different hashes, unless they are the same.
def NoCollision (inputs inputs' : List ByteArray) : Prop :=
  ∀ pair ∈ inputs.zip inputs', Blake3.hash pair.1 = Blake3.hash pair.2 → pair.1 = pair.2

theorem NoCollision.refl (inputs : List ByteArray) : NoCollision inputs inputs := by
  rw [NoCollision, zip, zipWith_self]
  exact forall_mem_map.mpr fun _ _ _ => rfl

theorem ofBytes_inj {a b : ByteArray} (h : ofBytes a = ofBytes b) : Blake3.hash a = Blake3.hash b :=
  (String.append_right_inj _).mp h

theorem ofText_inj {x y : String}
    (hi : Blake3.hash x.toUTF8 = Blake3.hash y.toUTF8 → x.toUTF8 = y.toUTF8)
    (h : ofText x = ofText y) : x = y :=
  String.toByteArray_inj.mp <| hi <| ofBytes_inj h

-- Parts that follow each other make up what is left of the file.
theorem feed_eq {file hashed : ByteArray} {start : Nat} :
    feed file start hashed = hashed ++ file.extract start file.size := by
  fun_induction feed file start hashed
  case case1 start hashed hlt part ih =>
    rw [ih, ByteArray.append_assoc, ByteArray.extract_append_extract]
    congr 1
    apply ByteArray.ext
    rw [ByteArray.data_extract, ByteArray.data_extract, Nat.min_eq_left (Nat.le_add_right ..),
      Array.extract_eq_extract_right, ByteArray.size_data]
    omega
  case case2 start hashed hge =>
    have he : file.extract start file.size = .empty := ByteArray.extract_eq_empty_iff.mpr (by omega)
    rw [he, ByteArray.append_empty]

theorem ofFile_eq (file : ByteArray) : ofFile file = ofBytes file := by
  rw [ofFile, feed_eq, ByteArray.extract_zero_size, ByteArray.empty_append]

end Digest

end Lakehouse
