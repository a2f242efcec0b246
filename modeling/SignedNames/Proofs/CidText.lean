import Mathlib
import SignedNames.Cid
import SignedNames.Proofs.Bytes.Base58
import SignedNames.Proofs.Bytes.BigEndian

/-!
# Identifiers and their texts

Digests and the texts of identifiers correspond one to one. Every digest has a text of forty-six
characters that begins with `Qm` and is read back, and no other text is read.
-/
namespace SignedNames

namespace Cid

/-- The header fixes how many digits there are, and the first two of them. -/
lemma exists_digitsOf (c : Cid) : ∃ rest, rest.length = 44 ∧
    Base58.digitsOf (header ++ c.digest.bytes) = 23 :: 44 :: rest := by
  have hvalue : BigEndian.value (header ++ c.digest.bytes) =
      0x1220 * 256 ^ 32 + BigEndian.value c.digest.bytes := by
    rw [BigEndian.value_append, c.digest.length_eq]
    rfl
  have hlt := BigEndian.value_lt c.digest.bytes
  rw [c.digest.length_eq] at hlt
  obtain ⟨low, hlow, hsplit⟩ : ∃ low < 58 ^ 44,
      BigEndian.value (header ++ c.digest.bytes) = (23 * 58 + 44) * 58 ^ 44 + low := by
    refine ⟨BigEndian.value (header ++ c.digest.bytes) - (23 * 58 + 44) * 58 ^ 44, ?_, ?_⟩
    · rw [hvalue]
      norm_num at hlt ⊢
      omega
    · rw [hvalue]
      norm_num
      omega
  obtain ⟨rest, hrest, hdigits⟩ := Base58.exists_radixDigits_append (by decide : 2 ≤ 58)
    (by decide : 0 < 23 * 58 + 44) hlow
  refine ⟨rest, hrest, ?_⟩
  rw [Base58.digitsOf, hsplit, hdigits]
  rfl

lemma length_utf8_text (c : Cid) : (Text.utf8 c.text).length = 46 := by
  obtain ⟨rest, hrest, hdigits⟩ := c.exists_digitsOf
  rw [text, Base58.utf8_encode, hdigits, List.length_map, List.length_cons, List.length_cons, hrest]

lemma exists_text_eq (c : Cid) : ∃ rest : List Char, rest.length = 44 ∧
    c.text = String.ofList ('Q' :: 'm' :: rest) := by
  obtain ⟨rest, hrest, hdigits⟩ := c.exists_digitsOf
  refine ⟨rest.map Base58.digit, by rw [List.length_map, hrest], ?_⟩
  rw [text, Base58.encode_eq, hdigits]
  rfl

@[simp] theorem parse_text (c : Cid) : parse c.text = .ok c := by
  have hdecode : Base58.decode (Text.utf8 c.text) = .ok (0x12 :: 0x20 :: c.digest.bytes) :=
    Base58.decode_encode _
  simp [parse, length_utf8_text, hdecode, header]

theorem text_injective : Function.Injective text := by
  intro c d h
  have := congrArg parse h
  simpa using this

lemma decode_of_parse {s : String} {c : Cid} (h : parse s = .ok c) :
    Base58.decode (Text.utf8 s) = .ok (header ++ c.digest.bytes) := by
  simp only [parse] at h
  split at h
  · cases h
  · split at h
    · cases h
    · rename_i code length digest hdecode
      cases hdigest : Block.ofBytes? 32 digest with
      | none =>
        rw [hdigest] at h
        cases h
      | some block =>
        rw [hdigest] at h
        dsimp only at h
        split at h
        · rename_i hheader
          cases h
          rw [hdecode, ← hheader, Block.ofBytes?_eq_some.1 hdigest]
          rfl
        · cases h
    · cases h

/-- An identifier is only read from its own text. -/
theorem eq_text_of_parse {s : String} {c : Cid} (h : parse s = .ok c) : s = c.text := by
  have hbytes : Text.utf8 c.text = Text.utf8 s :=
    Base58.utf8_encode_of_decode (decode_of_parse h)
  have hread := congrArg Text.ofUtf8? hbytes
  rw [Text.ofUtf8?_utf8, Text.ofUtf8?_utf8] at hread
  exact (Option.some.inj hread).symm

theorem parse_eq_ok_iff {s : String} {c : Cid} : parse s = .ok c ↔ s = c.text :=
  ⟨eq_text_of_parse, by rintro rfl; exact c.parse_text⟩

/-- Digests and texts correspond: each digest has a text of this form that is read back as the
digest, and a text that belongs to no digest is malformed. -/
theorem texts_spell_digests :
    (∀ digest : Block 32, (Cid.mk digest).text.length = 46 ∧
      (∃ rest, (Cid.mk digest).text = "Qm" ++ rest) ∧ parse (Cid.mk digest).text = .ok ⟨digest⟩) ∧
    ∀ s : String, (∀ digest, parse s = .ok ⟨digest⟩ ↔ s = (Cid.mk digest).text) ∧
      ((∃ fault, parse s = .error fault) ↔ ∀ digest, s ≠ (Cid.mk digest).text) := by
  refine ⟨fun digest => ⟨?_, ?_, parse_text _⟩, fun s => ⟨fun digest => parse_eq_ok_iff, ?_⟩⟩
  · obtain ⟨rest, hrest, htext⟩ := (Cid.mk digest).exists_text_eq
    rw [htext, String.length_ofList, List.length_cons, List.length_cons, hrest]
  · obtain ⟨rest, -, htext⟩ := (Cid.mk digest).exists_text_eq
    refine ⟨String.ofList rest, htext.trans ?_⟩
    change String.ofList (['Q', 'm'] ++ rest) = _
    rw [String.ofList_append]
  · cases hparse : parse s with
    | error fault =>
      refine ⟨fun _ digest heq => ?_, fun _ => ⟨fault, rfl⟩⟩
      rw [heq, parse_text] at hparse
      cases hparse
    | ok c => exact ⟨nofun, fun h => absurd (eq_text_of_parse hparse) (h c.digest)⟩

end Cid
end SignedNames
