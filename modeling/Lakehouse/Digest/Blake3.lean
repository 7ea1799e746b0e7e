/-!
The BLAKE3 hash of octets, with the standard 32 octets of output. The input is cut into chunks of
1024 octets and those into blocks of 64; chunk values are joined in pairs, level by level, and the
last node is marked as the root.
-/
namespace Lakehouse.Blake3

abbrev Words := Vector UInt32 16
abbrev Chain := Vector UInt32 8

def initial : Chain := #v[
  0x6A09E667, 0xBB67AE85, 0x3C6EF372, 0xA54FF53A, 0x510E527F, 0x9B05688C, 0x1F83D9AB, 0x5BE0CD19]

-- Where each word of a message comes from in the round before.
def permutation : Vector (Fin 16) 16 := #v[2, 6, 3, 10, 7, 0, 4, 13, 1, 11, 12, 5, 9, 14, 15, 8]

def chunkStart : UInt32 := 1
def chunkEnd : UInt32 := 2
def parent : UInt32 := 4
def root : UInt32 := 8

def rotateRight (x : UInt32) (n : UInt32) : UInt32 := (x >>> n) ||| (x <<< (32 - n))

def set (v : Words) (i : Fin 16) (x : UInt32) : Words := v.set i.val x i.isLt

def mix (v : Words) (a b c d : Fin 16) (x y : UInt32) : Words :=
  let v := set v a (v[a] + v[b] + x)
  let v := set v d (rotateRight (v[d] ^^^ v[a]) 16)
  let v := set v c (v[c] + v[d])
  let v := set v b (rotateRight (v[b] ^^^ v[c]) 12)
  let v := set v a (v[a] + v[b] + y)
  let v := set v d (rotateRight (v[d] ^^^ v[a]) 8)
  let v := set v c (v[c] + v[d])
  set v b (rotateRight (v[b] ^^^ v[c]) 7)

-- Mixes the columns and then the diagonals.
def round (v m : Words) : Words :=
  let v := mix v 0 4 8 12 m[0] m[1]
  let v := mix v 1 5 9 13 m[2] m[3]
  let v := mix v 2 6 10 14 m[4] m[5]
  let v := mix v 3 7 11 15 m[6] m[7]
  let v := mix v 0 5 10 15 m[8] m[9]
  let v := mix v 1 6 11 12 m[10] m[11]
  let v := mix v 2 7 8 13 m[12] m[13]
  mix v 3 4 9 14 m[14] m[15]

def permute (m : Words) : Words := permutation.map fun i => m[i]

-- Seven rounds, the message permuted between them.
def rounds : Nat → Words → Words → Words
  | 0, v, _ => v
  | n + 1, v, m => rounds n (round v m) (permute m)

def compress (h : Chain) (m : Words) (counter : UInt64) (length flags : UInt32) : Chain :=
  let v := rounds 7 #v[
    h[0], h[1], h[2], h[3], h[4], h[5], h[6], h[7],
    initial[0], initial[1], initial[2], initial[3],
    counter.toUInt32, (counter >>> 32).toUInt32, length, flags] m
  #v[v[0] ^^^ v[8], v[1] ^^^ v[9], v[2] ^^^ v[10], v[3] ^^^ v[11],
     v[4] ^^^ v[12], v[5] ^^^ v[13], v[6] ^^^ v[14], v[7] ^^^ v[15]]

-- The octet at a place of the input; zero pads the last block.
def octet (input : ByteArray) (i : Nat) : UInt32 := if h : i < input.size then input[i].toUInt32 else 0

-- The little-endian words of the block at a place of the input.
def block (input : ByteArray) (start : Nat) : Words :=
  Vector.ofFn fun i =>
    let p := start + 4 * i.val
    octet input p ||| (octet input (p + 1) <<< 8) ||| (octet input (p + 2) <<< 16) |||
      (octet input (p + 3) <<< 24)

def blockCount (length : Nat) : Nat := max 1 ((length + 63) / 64)

-- Chains the blocks of a chunk that is `length` long, from block `i` on; `left` blocks are to come.
def chunkFrom (input : ByteArray) (start length : Nat) (counter : UInt64) (last : UInt32) :
    Nat → Nat → Chain → Chain
  | 0, _, h => h
  | left + 1, i, h =>
    let size := min 64 (length - 64 * i)
    let flags := (if i = 0 then chunkStart else 0) ||| (if left = 0 then chunkEnd ||| last else 0)
    chunkFrom input start length counter last left (i + 1)
      (compress h (block input (start + 64 * i)) counter size.toUInt32 flags)

-- The value of the `i`th chunk.
def chunk (input : ByteArray) (i : Nat) (last : UInt32) : Chain :=
  let length := min 1024 (input.size - 1024 * i)
  chunkFrom input (1024 * i) length i.toUInt64 last (blockCount length) 0 initial

def join (a b : Chain) (last : UInt32) : Chain :=
  compress initial (a ++ b) 0 64 (parent ||| last)

-- One level of the tree: neighbours are joined, one left over is carried up.
def joinPairs : List Chain → List Chain
  | a :: b :: rest => join a b 0 :: joinPairs rest
  | rest => rest

-- Climbs the tree until two values are left, at most `fuel` levels.
def climb : Nat → List Chain → Chain
  | _, [] => initial
  | _, [a] => a
  | _, [a, b] => join a b root
  | 0, a :: _ => a
  | fuel + 1, values => climb fuel (joinPairs values)

def words (input : ByteArray) : Chain :=
  let count := max 1 ((input.size + 1023) / 1024)
  if count = 1 then chunk input 0 root
  else climb count ((List.range count).map fun i => chunk input i 0)

def hexPair (b : UInt32) : String :=
  String.ofList [Nat.digitChar (b.toNat / 16), Nat.digitChar (b.toNat % 16)]

-- The hash in hexadecimal.
def hash (input : ByteArray) : String :=
  String.join ((words input).toList.map fun w =>
    hexPair (w &&& 255) ++ hexPair ((w >>> 8) &&& 255) ++ hexPair ((w >>> 16) &&& 255) ++
      hexPair (w >>> 24))

end Lakehouse.Blake3
