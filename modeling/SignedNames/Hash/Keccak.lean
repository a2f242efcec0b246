import SignedNames.Bytes.Basic

/-!
# Keccak-256

The permutation on twenty-five 64-bit lanes, lane `x + 5 * y` holding column `x` of row `y`, and the
sponge with a rate of 136 bytes and the padding of the first submission (`0x01 … 0x80`).
-/
namespace SignedNames.Keccak

abbrev Lanes := Array UInt64

def lane (s : Lanes) (i : Nat) : UInt64 := s.getD i 0

def rotateLeft (x n : UInt64) : UInt64 :=
  if n = 0 then x else (x <<< n) ||| (x >>> (64 - n))

def constants : List UInt64 := [
  0x0000000000000001, 0x0000000000008082, 0x800000000000808a, 0x8000000080008000,
  0x000000000000808b, 0x0000000080000001, 0x8000000080008081, 0x8000000000008009,
  0x000000000000008a, 0x0000000000000088, 0x0000000080008009, 0x000000008000000a,
  0x000000008000808b, 0x800000000000008b, 0x8000000000008089, 0x8000000000008003,
  0x8000000000008002, 0x8000000000000080, 0x000000000000800a, 0x800000008000000a,
  0x8000000080008081, 0x8000000000008080, 0x0000000080000001, 0x8000000080008008]

/-- How far each lane is rotated, in lane order. -/
def rotations : Array UInt64 :=
  #[0, 1, 62, 28, 27, 36, 44, 6, 55, 20, 3, 10, 43, 25, 39, 41, 45, 15, 21, 8, 18, 2, 61, 56, 14]

def tabulate (f : Nat → UInt64) : Lanes := ((List.range 25).map f).toArray

/-- Adds to every lane the parities of two neighbouring columns. -/
def mixColumns (s : Lanes) : Lanes :=
  let parity := ((List.range 5).map fun x =>
    lane s x ^^^ lane s (x + 5) ^^^ lane s (x + 10) ^^^ lane s (x + 15) ^^^ lane s (x + 20)).toArray
  tabulate fun i =>
    lane s i ^^^ lane parity ((i + 4) % 5) ^^^ rotateLeft (lane parity ((i + 1) % 5)) 1

/-- Rotates every lane and moves column `x` of row `y` to column `y` of row `2 * x + 3 * y`. -/
def rotateAndMove (s : Lanes) : Lanes :=
  tabulate fun i =>
    let x := i % 5
    let y := i / 5
    let source := (x + 3 * y) % 5 + 5 * x
    rotateLeft (lane s source) (rotations.getD source 0)

/-- Combines every lane with the next two of its row. -/
def mixRows (s : Lanes) : Lanes :=
  tabulate fun i =>
    let row := i - i % 5
    lane s i ^^^ ((~~~ lane s (row + (i + 1) % 5)) &&& lane s (row + (i + 2) % 5))

def round (s : Lanes) (constant : UInt64) : Lanes :=
  let t := mixRows (rotateAndMove (mixColumns s))
  t.setIfInBounds 0 (lane t 0 ^^^ constant)

def permute (s : Lanes) : Lanes := constants.foldl round s

/-- The lane that eight bytes spell, least significant byte first. -/
def laneOfBytes (bs : Bytes) : UInt64 := UInt64.ofNat (BigEndian.value bs.reverse)

def bytesOfLane (l : UInt64) : Bytes := (BigEndian.digits 8 l.toNat).reverse

/-- Adds one block of 136 bytes to the state and permutes it. -/
def absorb (s : Lanes) (block : Bytes) : Lanes :=
  let words := ((pieces 8 block).map laneOfBytes).toArray
  permute (tabulate fun i => lane s i ^^^ lane words i)

/-- The message followed by a one bit, zeros and a last one bit, up to a multiple of 136 bytes. -/
def padded (message : Bytes) : Bytes :=
  let missing := 136 - message.length % 136
  if missing = 1 then message ++ [0x81]
  else message ++ 0x01 :: List.replicate (missing - 2) 0 ++ [0x80]

def hash (message : Bytes) : Block 32 :=
  let s := (pieces 136 (padded message)).foldl absorb (tabulate fun _ => 0)
  ⟨bytesOfLane (lane s 0) ++ bytesOfLane (lane s 1) ++ bytesOfLane (lane s 2)
      ++ bytesOfLane (lane s 3), by simp [bytesOfLane]⟩

end SignedNames.Keccak
