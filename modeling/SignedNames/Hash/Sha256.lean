import SignedNames.Bytes.Basic

/-!
# SHA-256

The compression function over 32-bit words, folded over 64-byte blocks of the padded message, and
the keyed hash built from it.
-/
namespace SignedNames.Sha256

structure State where
  a : UInt32
  b : UInt32
  c : UInt32
  d : UInt32
  e : UInt32
  f : UInt32
  g : UInt32
  h : UInt32

def initial : State :=
  ⟨0x6a09e667, 0xbb67ae85, 0x3c6ef372, 0xa54ff53a, 0x510e527f, 0x9b05688c, 0x1f83d9ab, 0x5be0cd19⟩

def constants : Array UInt32 := #[
  0x428a2f98, 0x71374491, 0xb5c0fbcf, 0xe9b5dba5, 0x3956c25b, 0x59f111f1, 0x923f82a4, 0xab1c5ed5,
  0xd807aa98, 0x12835b01, 0x243185be, 0x550c7dc3, 0x72be5d74, 0x80deb1fe, 0x9bdc06a7, 0xc19bf174,
  0xe49b69c1, 0xefbe4786, 0x0fc19dc6, 0x240ca1cc, 0x2de92c6f, 0x4a7484aa, 0x5cb0a9dc, 0x76f988da,
  0x983e5152, 0xa831c66d, 0xb00327c8, 0xbf597fc7, 0xc6e00bf3, 0xd5a79147, 0x06ca6351, 0x14292967,
  0x27b70a85, 0x2e1b2138, 0x4d2c6dfc, 0x53380d13, 0x650a7354, 0x766a0abb, 0x81c2c92e, 0x92722c85,
  0xa2bfe8a1, 0xa81a664b, 0xc24b8b70, 0xc76c51a3, 0xd192e819, 0xd6990624, 0xf40e3585, 0x106aa070,
  0x19a4c116, 0x1e376c08, 0x2748774c, 0x34b0bcb5, 0x391c0cb3, 0x4ed8aa4a, 0x5b9cca4f, 0x682e6ff3,
  0x748f82ee, 0x78a5636f, 0x84c87814, 0x8cc70208, 0x90befffa, 0xa4506ceb, 0xbef9a3f7, 0xc67178f2]

def rotateRight (x n : UInt32) : UInt32 := (x >>> n) ||| (x <<< (32 - n))

def word (bs : Bytes) : UInt32 := UInt32.ofNat (BigEndian.value bs)

def schedule (block : Bytes) : Array UInt32 :=
  (List.range 48).foldl (fun w i =>
      let x := w.getD (i + 1) 0
      let y := w.getD (i + 14) 0
      let s0 := rotateRight x 7 ^^^ rotateRight x 18 ^^^ (x >>> 3)
      let s1 := rotateRight y 17 ^^^ rotateRight y 19 ^^^ (y >>> 10)
      w.push (w.getD i 0 + s0 + w.getD (i + 9) 0 + s1))
    ((pieces 4 block).map word).toArray

def round (s : State) (w k : UInt32) : State :=
  let s1 := rotateRight s.e 6 ^^^ rotateRight s.e 11 ^^^ rotateRight s.e 25
  let choice := (s.e &&& s.f) ^^^ ((~~~ s.e) &&& s.g)
  let t1 := s.h + s1 + choice + k + w
  let s0 := rotateRight s.a 2 ^^^ rotateRight s.a 13 ^^^ rotateRight s.a 22
  let majority := (s.a &&& s.b) ^^^ (s.a &&& s.c) ^^^ (s.b &&& s.c)
  ⟨t1 + (s0 + majority), s.a, s.b, s.c, s.d + t1, s.e, s.f, s.g⟩

def compress (s : State) (block : Bytes) : State :=
  let w := schedule block
  let r := (List.range 64).foldl (fun t i => round t (w.getD i 0) (constants.getD i 0)) s
  ⟨s.a + r.a, s.b + r.b, s.c + r.c, s.d + r.d, s.e + r.e, s.f + r.f, s.g + r.g, s.h + r.h⟩

/-- A one bit, zeros up to a block's last eight bytes, and the message length in bits. -/
def padded (message : Bytes) : Bytes :=
  let n := message.length
  message ++ 0x80 :: List.replicate ((119 - n % 64) % 64) 0 ++ BigEndian.digits 8 (n * 8)

/-- The digest is the last chaining value, word by word. -/
def hash (message : Bytes) : Block 32 :=
  let s := (pieces 64 (padded message)).foldl compress initial
  ⟨BigEndian.digits 4 s.a.toNat ++ BigEndian.digits 4 s.b.toNat
      ++ BigEndian.digits 4 s.c.toNat ++ BigEndian.digits 4 s.d.toNat
      ++ BigEndian.digits 4 s.e.toNat ++ BigEndian.digits 4 s.f.toNat
      ++ BigEndian.digits 4 s.g.toNat ++ BigEndian.digits 4 s.h.toNat,
    by simp⟩

/-- The keyed hash for keys of at most one block. -/
def keyed (key message : Bytes) : Bytes :=
  let full := key ++ List.replicate (64 - key.length) 0
  let inner := hash (full.map (· ^^^ 0x36) ++ message)
  (hash (full.map (· ^^^ 0x5c) ++ inner.bytes)).bytes

end SignedNames.Sha256
