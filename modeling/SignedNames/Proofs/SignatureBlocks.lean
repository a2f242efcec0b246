import Mathlib
import SignedNames.Identity.Signature

/-!
# The blocks of signatures

A signature is a block of 32 bytes for each of its two numbers and a last byte. Its parts are read
off these.
-/
namespace SignedNames

lemma Secp256k1.order_lt_range : order < BigEndian.range 32 := by decide +kernel

lemma Ecdsa.Scalar.ofNat?_eq_some_iff {n : Nat} {scalar : Scalar} :
    ofNat? n = some scalar ↔ scalar.value = n := by
  rw [ofNat?]
  constructor
  · intro h
    split at h
    · cases h
      rfl
    · cases h
  · rintro rfl
    rw [dif_pos ⟨scalar.pos, scalar.lt⟩]

namespace Signature

def ofBlocks (r t : Block 32) (v : UInt8) : Signature :=
  ⟨⟨r.bytes ++ t.bytes ++ [v], by simp [r.length_eq, t.length_eq]⟩⟩

variable (s : Signature)

def firstBlock : Block 32 := ⟨s.block.bytes.take 32, by simp [s.block.length_eq]⟩

def secondBlock : Block 32 := ⟨(s.block.bytes.drop 32).take 32, by simp [s.block.length_eq]⟩

def second : Nat := BigEndian.value s.secondBlock.bytes

section

variable (r t : Block 32) (v : UInt8)

@[simp] lemma firstBlock_ofBlocks : (ofBlocks r t v).firstBlock = r := by
  have hbytes : (ofBlocks r t v).block.bytes = r.bytes ++ (t.bytes ++ [v]) := List.append_assoc ..
  refine Block.ext ?_
  simp only [firstBlock, hbytes, List.take_left' r.length_eq]

@[simp] lemma secondBlock_ofBlocks : (ofBlocks r t v).secondBlock = t := by
  have hbytes : (ofBlocks r t v).block.bytes = r.bytes ++ (t.bytes ++ [v]) := List.append_assoc ..
  refine Block.ext ?_
  simp only [secondBlock, hbytes, List.drop_left' r.length_eq, List.take_left' t.length_eq]

@[simp] lemma recoveryByte_ofBlocks : (ofBlocks r t v).recoveryByte = v := by
  have hlength : (r.bytes ++ t.bytes).length = 64 := by
    rw [List.length_append, r.length_eq, t.length_eq]
  rw [recoveryByte, ofBlocks, List.getD_append_right _ _ _ _ hlength.le, hlength]
  rfl

end

lemma parts_congr {s t : Signature} (hfirst : s.firstBlock = t.firstBlock)
    (hsecond : s.secondBlock = t.secondBlock) (hodd : s.oddOrdinate = t.oddOrdinate) :
    s.parts = t.parts := by
  have hr : s.block.bytes.take 32 = t.block.bytes.take 32 := congrArg Block.bytes hfirst
  have ht : (s.block.bytes.drop 32).take 32 = (t.block.bytes.drop 32).take 32 :=
    congrArg Block.bytes hsecond
  rw [parts, parts, scalars, scalars, hr, ht, hodd]

variable {s}

lemma scalars_eq_ok_iff {pair : Ecdsa.Pair} : s.scalars = .ok pair ↔
    pair.r.value = BigEndian.value s.firstBlock.bytes ∧ pair.s.value = s.second := by
  simp only [scalars]
  split
  · rename_i r t hr ht
    constructor
    · intro h
      cases h
      exact ⟨Ecdsa.Scalar.ofNat?_eq_some_iff.1 hr, Ecdsa.Scalar.ofNat?_eq_some_iff.1 ht⟩
    · intro h
      have hr' := hr.symm.trans (Ecdsa.Scalar.ofNat?_eq_some_iff.2 h.1)
      have ht' := ht.symm.trans (Ecdsa.Scalar.ofNat?_eq_some_iff.2 h.2)
      rw [Option.some.inj hr', Option.some.inj ht']
  · rename_i hmissing
    exact ⟨nofun, fun h => absurd (Ecdsa.Scalar.ofNat?_eq_some_iff.2 h.2)
      (hmissing _ _ (Ecdsa.Scalar.ofNat?_eq_some_iff.2 h.1))⟩

lemma parts_eq_ok_iff {pair : Ecdsa.Pair} {odd : Bool} :
    s.parts = .ok (pair, odd) ↔ s.oddOrdinate = .ok odd ∧ s.scalars = .ok pair := by
  rw [parts]
  cases s.oddOrdinate with
  | error fault => simp
  | ok odd' =>
    cases s.scalars with
    | error fault => simp
    | ok pair' => simp [and_comm]

lemma second_of_parts {pair : Ecdsa.Pair} {odd : Bool} (h : s.parts = .ok (pair, odd)) :
    pair.s.value = s.second := (scalars_eq_ok_iff.1 (parts_eq_ok_iff.1 h).2).2

end Signature
end SignedNames
