import Lakehouse.Digest.Blake3

namespace Lakehouse.Digest

def ofBytes (bytes : ByteArray) : String := "blake3:" ++ Blake3.hash bytes

def ofText (s : String) : String := ofBytes s.toUTF8

-- Each component is closed by a zero octet, so that borders between components count.
def ofTexts (components : List String) : String :=
  ofBytes (components.foldl (fun bytes s => (bytes ++ s.toUTF8).push 0) ByteArray.empty)

-- How many octets of a file are read at once.
def partSize : Nat := 65536

-- Adds what a file has from `start` on to the octets that are hashed, part by part.
def feed (file : ByteArray) (start : Nat) (hashed : ByteArray) : ByteArray :=
  if start < file.size then
    let part := file.extract start (start + partSize)
    feed file (start + partSize) (hashed ++ part)
  else hashed
termination_by file.size - start
decreasing_by
  simp only [partSize]
  omega

-- The fingerprint of a file that is read part by part.
def ofFile (file : ByteArray) : String := ofBytes (feed file 0 ByteArray.empty)

end Lakehouse.Digest
