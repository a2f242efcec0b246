import Mathlib
import SignedNames.Bytes.Basic

/-!
# Numbers in bytes

The number that a byte string spells is put together from those of its parts, and has as many digits
as there are bytes.
-/
namespace SignedNames.BigEndian

lemma value_append (high low : Bytes) :
    value (high ++ low) = value high * 256 ^ low.length + value low := by
  induction low using List.reverseRecOn with
  | nil => simp [value]
  | append_singleton low b ih =>
    rw [← List.append_assoc, value_append_singleton, ih, value_append_singleton,
      List.length_append, List.length_singleton, pow_succ]
    ring

lemma value_lt (bs : Bytes) : value bs < 256 ^ bs.length := by
  induction bs using List.reverseRecOn with
  | nil => simp [value]
  | append_singleton bs b ih =>
    have hb := b.toNat_lt
    rw [value_append_singleton, List.length_append, List.length_singleton, pow_succ]
    omega

lemma value_eq_zero_iff {bs : Bytes} : value bs = 0 ↔ ∀ b ∈ bs, b = 0 := by
  induction bs using List.reverseRecOn with
  | nil => simp [value]
  | append_singleton bs b ih =>
    rw [value_append_singleton, List.forall_mem_append, List.forall_mem_singleton, ← ih,
      ← UInt8.toNat_inj]
    have hzero : (0 : UInt8).toNat = 0 := rfl
    omega

lemma digits_value (bs : Bytes) : digits bs.length (value bs) = bs := by
  induction bs using List.reverseRecOn with
  | nil => rfl
  | append_singleton bs b ih =>
    have hb := b.toNat_lt
    have hhigh : (value bs * 256 + b.toNat) / 256 = value bs := by omega
    have hlow : (value bs * 256 + b.toNat) % 256 = b.toNat := by omega
    rw [value_append_singleton, List.length_append, List.length_singleton, digits, hhigh, hlow, ih,
      UInt8.ofNat_toNat]

end SignedNames.BigEndian
