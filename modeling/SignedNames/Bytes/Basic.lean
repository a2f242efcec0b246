/-!
# Byte strings

Byte strings are lists, so that codecs recurse on them directly. This module holds byte strings of
a fixed length (`Block`), numbers written most significant byte first (`BigEndian`), and the UTF-8
bytes of a text.
-/
namespace SignedNames

abbrev Bytes := List UInt8

structure Block (n : Nat) where
  bytes : Bytes
  length_eq : bytes.length = n
deriving DecidableEq

namespace Block

def ofBytes? (n : Nat) (bs : Bytes) : Option (Block n) :=
  if h : bs.length = n then some ⟨bs, h⟩ else none

def replicate (n : Nat) (b : UInt8) : Block n :=
  ⟨List.replicate n b, List.length_replicate⟩

theorem ext {n : Nat} {a b : Block n} (h : a.bytes = b.bytes) : a = b := by
  cases a; cases b; cases h; rfl

@[simp] theorem ofBytes?_bytes {n : Nat} (a : Block n) : ofBytes? n a.bytes = some a := by
  simp [ofBytes?, a.length_eq]

theorem ofBytes?_eq_some {n : Nat} {bs : Bytes} {a : Block n} :
    ofBytes? n bs = some a ↔ bs = a.bytes := by
  constructor
  · intro h
    unfold ofBytes? at h
    split at h
    · cases h; rfl
    · cases h
  · rintro rfl
    simp

end Block

namespace BigEndian

/-- The number a byte string spells, most significant byte first. -/
def value (bs : Bytes) : Nat :=
  bs.foldl (fun n b => n * 256 + b.toNat) 0

/-- The last `width` base-256 digits of a number, most significant first. -/
def digits : (width : Nat) → Nat → Bytes
  | 0, _ => []
  | width + 1, n => digits width (n / 256) ++ [UInt8.ofNat (n % 256)]

@[simp] theorem length_digits (width n : Nat) : (digits width n).length = width := by
  induction width generalizing n with
  | zero => rfl
  | succ width ih => simp [digits, ih]

theorem value_append_singleton (bs : Bytes) (b : UInt8) :
    value (bs ++ [b]) = value bs * 256 + b.toNat := by
  simp [value, List.foldl_append]

/-- How many numbers there are of this many digits. -/
def range (width : Nat) : Nat := Nat.pow 256 width

theorem range_succ (width : Nat) : range (width + 1) = 256 * range width :=
  Nat.mul_comm _ _

theorem value_digits (width n : Nat) : value (digits width n) = n % range width := by
  induction width generalizing n with
  | zero => simp [digits, value, range, Nat.mod_one]
  | succ width ih =>
    rw [digits, value_append_singleton, ih, range_succ, Nat.mod_mul]
    simp [Nat.mul_comm, Nat.add_comm]

theorem value_digits_of_lt {width n : Nat} (h : n < range width) : value (digits width n) = n := by
  rw [value_digits, Nat.mod_eq_of_lt h]

def block (width n : Nat) : Block width :=
  ⟨digits width n, length_digits width n⟩

end BigEndian

/-- The first `n` items and the rest, if there are that many. -/
def splitExact {α : Type} : Nat → List α → Option (List α × List α)
  | 0, rest => some ([], rest)
  | _ + 1, [] => none
  | n + 1, a :: rest => (splitExact n rest).map fun (taken, left) => (a :: taken, left)

@[simp] theorem splitExact_append {α : Type} (taken left : List α) :
    splitExact taken.length (taken ++ left) = some (taken, left) := by
  induction taken with
  | nil => rfl
  | cons a taken ih => simp [splitExact, ih]

theorem splitExact_eq_some {α : Type} {n : Nat} {items taken left : List α}
    (h : splitExact n items = some (taken, left)) : items = taken ++ left ∧ taken.length = n := by
  induction n generalizing items taken with
  | zero => simp only [splitExact, Option.some.injEq, Prod.mk.injEq] at h; simp [← h.1, h.2]
  | succ n ih =>
    cases items with
    | nil => simp [splitExact] at h
    | cons a items =>
      simp only [splitExact, Option.map_eq_some_iff, Prod.exists, Prod.mk.injEq] at h
      obtain ⟨front, back, hs, rfl, rfl⟩ := h
      obtain ⟨rfl, rfl⟩ := ih hs
      simp

/-- At most `count` successive pieces of `size` items; the last may be shorter. -/
def piecesUpTo {α : Type} (size : Nat) : (count : Nat) → List α → List (List α)
  | 0, _ => []
  | _, [] => []
  | count + 1, items => items.take size :: piecesUpTo size count (items.drop size)

/-- The successive pieces of `size` items; the last may be shorter. -/
def pieces {α : Type} (size : Nat) (items : List α) : List (List α) :=
  piecesUpTo size items.length items

namespace Text

def utf8 (s : String) : Bytes := s.toUTF8.data.toList

def ofUtf8? (bs : Bytes) : Option String := String.fromUTF8? ⟨bs.toArray⟩

end Text

end SignedNames
