import Mathlib
import SignedNames.Cbor.Canonical
import SignedNames.Proofs.Bytes.BigEndian

/-!
# Heads of items

An item starts with a head, which holds a number in the first byte or in one, two, four or eight
bytes after it. A head is read from the front of a byte string exactly when it is spelled there. The
encoder spells numbers in the fewest bytes, and no other spelling of them is as short.
-/
namespace SignedNames.Cbor

def firstByte (major form : Nat) : UInt8 := UInt8.ofNat (major * 32 + form)

namespace Head

inductive Spelled : Head → Bytes → Prop
  | immediate (major : Nat) {n : Nat} (h : n < 24) :
    Spelled ⟨major, n, some n⟩ [firstByte major n]
  | following (major : Nat) {k : Nat} (hk : k < 4) {digits : Bytes} (h : digits.length = 2 ^ k) :
    Spelled ⟨major, 24 + k, some (BigEndian.value digits)⟩ (firstByte major (24 + k) :: digits)
  | indefinite (major : Nat) : Spelled ⟨major, 31, none⟩ [firstByte major 31]

lemma firstByte_parts {major form : Nat} (hm : major < 8) (hf : form < 32) :
    (firstByte major form).toNat / 32 = major ∧ (firstByte major form).toNat % 32 = form := by
  rw [firstByte, UInt8.toNat_ofNat']
  omega

lemma firstByte_eq (b : UInt8) : firstByte (b.toNat / 32) (b.toNat % 32) = b := by
  rw [firstByte, Nat.div_add_mod', UInt8.ofNat_toNat]

theorem read_of_spelled {head : Head} {front : Bytes} (h : head.Spelled front)
    (hm : head.major < 8) (rest : Bytes) : read (front ++ rest) = some (head, rest) := by
  cases h with
  | immediate major hn =>
    obtain ⟨hmajor, hform⟩ := firstByte_parts hm (hn.trans (by decide))
    simp [read, hmajor, hform, hn]
  | @following major k hk digits hlength =>
    obtain ⟨hmajor, hform⟩ := firstByte_parts hm (show 24 + k < 32 by omega)
    have hsplit : splitExact (2 ^ k) (digits ++ rest) = some (digits, rest) := by
      rw [← hlength, splitExact_append]
    interval_cases k <;> simp_all [read]
  | indefinite major =>
    obtain ⟨hmajor, hform⟩ := firstByte_parts hm (show 31 < 32 by decide)
    simp [read, hmajor, hform]

theorem spelled_of_read {head : Head} {bs rest : Bytes} (h : read bs = some (head, rest)) :
    head.major < 8 ∧ ∃ front, head.Spelled front ∧ bs = front ++ rest := by
  cases bs with
  | nil => cases h
  | cons b tail =>
    have hmajor : b.toNat / 32 < 8 := Nat.div_lt_of_lt_mul b.toNat_lt
    have following (k : Nat) (hk : k < 4) (hform : b.toNat % 32 = 24 + k)
        (hread : (splitExact (2 ^ k) tail).map (fun split =>
          (Head.mk (b.toNat / 32) (b.toNat % 32) (some (BigEndian.value split.1)), split.2)) =
            some (head, rest)) :
        head.major < 8 ∧ ∃ front, head.Spelled front ∧ b :: tail = front ++ rest := by
      obtain ⟨⟨digits, left⟩, hsplit, heq⟩ := Option.map_eq_some_iff.1 hread
      obtain ⟨rfl, hlength⟩ := splitExact_eq_some hsplit
      cases heq
      have hspelled := Spelled.following (b.toNat / 32) hk hlength
      rw [← hform, firstByte_eq] at hspelled
      exact ⟨hmajor, _, hspelled, rfl⟩
    simp only [read] at h
    split_ifs at h with h0 h1 h2 h3 h4 h5
    · cases h
      have hspelled := Spelled.immediate (b.toNat / 32) h0
      rw [firstByte_eq] at hspelled
      exact ⟨hmajor, _, hspelled, rfl⟩
    · exact following 0 (by decide) h1 h
    · exact following 1 (by decide) h2 h
    · exact following 2 (by decide) h3 h
    · exact following 3 (by decide) h4 h
    · cases h
      have hb : firstByte (b.toNat / 32) 31 = b := h5 ▸ firstByte_eq b
      have hspelled := Spelled.indefinite (b.toNat / 32)
      rw [hb] at hspelled
      rw [h5]
      exact ⟨hmajor, _, hspelled, rfl⟩

/-- The least number that a form is needed for. -/
def leastNumber (form : Nat) : Nat :=
  if form = 24 then 24
  else if form = 25 then UInt8.size
  else if form = 26 then UInt16.size
  else if form = 27 then UInt32.size
  else 0

end Head

open Head in
/-- A number is spelled in a form that it needs. One of more than 64 bits loses its upper ones. -/
theorem spelled_headBytes (major n : Nat) : ∃ form,
    Spelled ⟨major, form, some (n % UInt64.size)⟩ (headBytes major n) ∧
      leastNumber form ≤ n := by
  have following (k : Nat) (hk : k < 4) (hn : n % BigEndian.range (2 ^ k) = n % UInt64.size) :
      Spelled ⟨major, 24 + k, some (n % UInt64.size)⟩
        (firstByte major (24 + k) :: BigEndian.digits (2 ^ k) n) := by
    have hspelled := Spelled.following major hk (BigEndian.length_digits (2 ^ k) n)
    rwa [BigEndian.value_digits, hn] at hspelled
  have hsizes : UInt8.size < UInt16.size ∧ UInt16.size < UInt32.size ∧
      UInt32.size < UInt64.size ∧ 24 < UInt8.size := by decide
  have small (range : Nat) (h : n < range) (hrange : range ≤ UInt64.size) :
      n % range = n % UInt64.size := by
    rw [Nat.mod_eq_of_lt h, Nat.mod_eq_of_lt (h.trans_le hrange)]
  unfold headBytes
  split_ifs with h0 h1 h2 h3
  · refine ⟨n, ?_, ?_⟩
    · rw [Nat.mod_eq_of_lt (by omega)]
      exact .immediate major h0
    · rw [leastNumber]
      split_ifs <;> omega
  · exact ⟨24, following 0 (by decide) (small _ h1 (by decide)), Nat.not_lt.1 h0⟩
  · exact ⟨25, following 1 (by decide) (small _ h2 (by decide)), Nat.not_lt.1 h1⟩
  · exact ⟨26, following 2 (by decide) (small _ h3 (by decide)), Nat.not_lt.1 h2⟩
  · exact ⟨27, following 3 (by decide) rfl, Nat.not_lt.1 h3⟩

open Head in
/-- No other spelling of a number is as short as the encoder's. -/
theorem eq_headBytes_of_spelled {major form n : Nat} {front : Bytes}
    (h : Spelled ⟨major, form, some n⟩ front) (hleast : leastNumber form ≤ n) :
    front = headBytes major n := by
  cases h with
  | immediate major hn => rw [headBytes, if_pos hn, firstByte]
  | @following major k hk digits hlength =>
    have hlt := BigEndian.value_lt digits
    have hdigits := BigEndian.digits_value digits
    rw [hlength] at hlt hdigits
    generalize BigEndian.value digits = n at *
    rw [← hdigits]
    have hsizes : UInt8.size = 256 ∧ UInt16.size = 65536 ∧ UInt32.size = 4294967296 := by decide
    unfold headBytes
    interval_cases k
    · have hn : 24 ≤ n := hleast
      rw [if_neg (by omega), if_pos (by omega)]
      rfl
    · have hn : UInt8.size ≤ n := hleast
      rw [if_neg (by omega), if_neg (by omega), if_pos (by omega)]
      rfl
    · have hn : UInt16.size ≤ n := hleast
      rw [if_neg (by omega), if_neg (by omega), if_neg (by omega), if_pos (by omega)]
      rfl
    · have hn : UInt32.size ≤ n := hleast
      rw [if_neg (by omega), if_neg (by omega), if_neg (by omega), if_neg (by omega)]
      rfl

end SignedNames.Cbor
