import Mathlib
import SignedNames.Proofs.LinkCodec

/-!
# What a signature covers

The bytes that are hashed for a signature fix the message, although nothing marks where the digits
of its length end. The canonical bytes of a body are read back as a map of its fields, and so fix
the body.
-/
namespace SignedNames

namespace PersonalMessage

lemma length_utf8_toString (n : Nat) :
    (Text.utf8 (toString n)).length = (Nat.toDigits 10 n).length := by
  have hascii : ∀ c ∈ Nat.toDigits 10 n, Text.Ascii c := by
    intro c hc
    have hdigit := Nat.isDigit_of_mem_toDigits (by omega) (by omega) hc
    simp only [Char.isDigit, Bool.and_eq_true, decide_eq_true_eq, UInt32.le_iff_toNat_le] at hdigit
    have hnine : '9'.val.toNat = 57 := rfl
    have htoNat : c.val.toNat = c.toNat := rfl
    rw [Text.Ascii]
    omega
  rw [Nat.toString_eq_ofList_toDigits, Text.utf8_ofList_ascii hascii, List.length_map]

lemma length_toDigits_mono {m n : Nat} (h : m ≤ n) :
    (Nat.toDigits 10 m).length ≤ (Nat.toDigits 10 n).length := by
  have hpos := Nat.length_toDigits_pos (b := 10) (n := n)
  rw [Nat.length_toDigits_le_iff (by omega) hpos]
  exact lt_of_le_of_lt h ((Nat.length_toDigits_le_iff (by omega) hpos).1 le_rfl)

lemma length_preimage (message : Bytes) : (preimage message).length =
    heading.length + (Nat.toDigits 10 message.length).length + message.length := by
  simp only [preimage, List.length_append, length_utf8_toString]

/-- The preimage of a longer message is longer, so the length of the message can be told from it. -/
lemma length_preimage_lt {m n : Bytes} (h : m.length < n.length) :
    (preimage m).length < (preimage n).length := by
  have hdigits := length_toDigits_mono h.le
  rw [length_preimage, length_preimage]
  omega

theorem preimage_injective : Function.Injective preimage := by
  intro m n h
  have hlength : m.length = n.length := by
    have heq := congrArg List.length h
    rcases lt_trichotomy m.length n.length with hlt | hlength | hlt
    · have := length_preimage_lt hlt
      omega
    · exact hlength
    · have := length_preimage_lt hlt
      omega
  rw [preimage, preimage, hlength] at h
  exact List.append_cancel_left h

end PersonalMessage

namespace LinkBody
open Cbor

lemma entries_distinct (b : LinkBody) : (b.entries.map Prod.fst).Nodup := by
  have hall := Link.allEntries_distinct ⟨b, ⟨.replicate 65 0⟩⟩
  rw [Link.allEntries, List.map_append] at hall
  exact hall.of_append_left

lemma entries_encodable {b : LinkBody} (h : b.Fits) (depth : Nat) :
    (Canonical.map b.entries).Encodable (depth + 1) := by
  set l : Link := ⟨b, ⟨.replicate 65 0⟩⟩
  have hsub : b.entries ⊆ l.allEntries := List.subset_append_left ..
  have hkeys := l.allEntries_keys
  have hlength : b.entries.length ≤ l.allEntries.length := by simp [Link.allEntries, l]
  have hvalues : ∀ e ∈ l.allEntries, e.2.Encodable depth := Link.allEntries_encodable h depth
  exact .map (hlength.trans_lt hkeys.1) (fun e he => hkeys.2 e (hsub he))
    (fun e he => hvalues e (hsub he))

theorem read_signingBytes {b : LinkBody} (h : b.Fits) (rest : Bytes) :
    Item.readWithin 1 (b.signingBytes ++ rest) = some (.map (itemEntries b.entries), rest) := by
  have hread := readWithin_encode (entries_encodable h 0) rest
  rwa [Canonical.item_map] at hread

lemma lookup_optionalEntry {entries : List (String × Canonical)} {key : String} {o : Option String}
    (distinct : (entries.map Prod.fst).Nodup) (hmem : optionalEntry key o ⊆ entries)
    (hnone : o = none → key ∉ entries.map Prod.fst) :
    Item.lookup key (itemEntries entries) = o.map Item.text := by
  cases o with
  | none => exact lookup_itemEntries_none (hnone rfl)
  | some s =>
    have hentry : (key, Canonical.text s) ∈ entries := hmem (by simp [optionalEntry])
    rw [lookup_itemEntries distinct hentry, Canonical.item, Option.map_some]

lemma lookup_encryptionAlgorithm (b : LinkBody) :
    Item.lookup "encryptionAlgorithm" (itemEntries b.entries) =
      b.encryptionAlgorithm.map Item.text := by
  refine lookup_optionalEntry b.entries_distinct ?_ ?_
  · intro e he
    simp [entries, he]
  · intro hnone
    cases hf : b.encryptionKeyFingerprint <;> simp [entries, optionalEntry, hnone, hf]

lemma lookup_encryptionKeyFingerprint (b : LinkBody) :
    Item.lookup "encryptionKeyFingerprint" (itemEntries b.entries) =
      b.encryptionKeyFingerprint.map Item.text := by
  refine lookup_optionalEntry b.entries_distinct ?_ ?_
  · intro e he
    simp [entries, he]
  · intro hnone
    cases ha : b.encryptionAlgorithm <;> simp [entries, optionalEntry, hnone, ha]

theorem eq_of_itemEntries_eq {a b : LinkBody}
    (h : itemEntries a.entries = itemEntries b.entries) : a = b := by
  have field (key : String) (u v : Canonical) (ha : (key, u) ∈ a.entries)
      (hb : (key, v) ∈ b.entries) : u.item = v.item := by
    have hu := lookup_itemEntries a.entries_distinct ha
    have hv := lookup_itemEntries b.entries_distinct hb
    rw [h, hv] at hu
    exact (Option.some.inj hu).symm
  have hversion := field "schemaVersion" (.natural a.schemaVersion.toUInt64)
    (.natural b.schemaVersion.toUInt64) (by simp [entries]) (by simp [entries])
  have hname := field "name" (.text a.name) (.text b.name) (by simp [entries]) (by simp [entries])
  have hpayload := field "payloadCid" (.text a.payloadCid) (.text b.payloadCid)
    (by simp [entries]) (by simp [entries])
  have hencrypted := field "encrypted" (.bool a.encrypted) (.bool b.encrypted)
    (by simp [entries]) (by simp [entries])
  have hchain := field "chainId" (.natural a.chainId) (.natural b.chainId)
    (by simp [entries]) (by simp [entries])
  have hsigner := field "signerAddress" (.bytes a.signerAddress.block.bytes)
    (.bytes b.signerAddress.block.bytes) (by simp [entries]) (by simp [entries])
  have hsignedAt := field "signedAt" (.natural a.signedAt) (.natural b.signedAt)
    (by simp [entries]) (by simp [entries])
  have hnonce := field "nonce" (.bytes a.nonce.block.bytes) (.bytes b.nonce.block.bytes)
    (by simp [entries]) (by simp [entries])
  have htext : Function.Injective Item.text := fun s t hst => Item.text.inj hst
  have halgorithm : a.encryptionAlgorithm = b.encryptionAlgorithm := by
    apply Option.map_injective htext
    rw [← lookup_encryptionAlgorithm, ← lookup_encryptionAlgorithm, h]
  have hfingerprint : a.encryptionKeyFingerprint = b.encryptionKeyFingerprint := by
    apply Option.map_injective htext
    rw [← lookup_encryptionKeyFingerprint, ← lookup_encryptionKeyFingerprint, h]
  obtain ⟨_, _, _, _, _, _, _, ⟨_⟩, _, ⟨_⟩⟩ := a
  obtain ⟨_, _, _, _, _, _, _, ⟨_⟩, _, ⟨_⟩⟩ := b
  simp only [Canonical.item, Item.integer.injEq, Item.text.injEq, Item.bool.injEq,
    Item.bytes.injEq, Int.natCast_inj, UInt64.toNat_inj] at *
  simp only [LinkBody.mk.injEq, Address.mk.injEq, Nonce.mk.injEq]
  refine ⟨?_, hname, hpayload, hencrypted, halgorithm, hfingerprint, hchain, Block.ext hsigner,
    hsignedAt, Block.ext hnonce⟩
  simpa [← UInt64.toNat_inj, UInt8.toNat_inj] using hversion

theorem eq_of_prefix_signingBytes {a b : LinkBody} (ha : a.Fits) (hb : b.Fits)
    (h : a.signingBytes <+: b.signingBytes) : a = b := by
  obtain ⟨rest, hrest⟩ := h
  have hreadA := read_signingBytes ha rest
  have hreadB := read_signingBytes hb []
  rw [List.append_nil, ← hrest, hreadA] at hreadB
  simp only [Option.some.injEq, Prod.mk.injEq, Item.map.injEq] at hreadB
  exact eq_of_itemEntries_eq hreadB.1

/-- What is hashed for a signature fixes the body in every field; an absent text is not an empty one.
Any message is fixed by what is hashed for it, and no body's bytes begin another's. Bodies are taken
as they can be held in memory, where the length of a text has 64 bits. -/
theorem signed_determines_body :
    (∀ b : LinkBody, b.signingDigest = Keccak.hash b.signingPreimage) ∧
      (∀ a b : LinkBody, a.Fits → b.Fits → a.signingPreimage = b.signingPreimage → a = b) ∧
      (∀ m n : Bytes, PersonalMessage.preimage m = PersonalMessage.preimage n → m = n) ∧
      ∀ a b : LinkBody, a.Fits → b.Fits → a.signingBytes <+: b.signingBytes →
        a.signingBytes = b.signingBytes := by
  refine ⟨fun _ => rfl, ?_, fun m n h => PersonalMessage.preimage_injective h, ?_⟩
  · intro a b ha hb h
    have hbytes : a.signingBytes = b.signingBytes := PersonalMessage.preimage_injective h
    exact eq_of_prefix_signingBytes ha hb (hbytes ▸ List.prefix_rfl)
  · intro a b ha hb h
    rw [eq_of_prefix_signingBytes ha hb h]

def plainSample : LinkBody :=
  ⟨1, "Größe", "Qm1", false, none, none, 65536, ⟨.replicate 20 0xab⟩, 24, ⟨.replicate 16 1⟩⟩

/-- The same with an empty text where the other has none. -/
def blankSample : LinkBody := { plainSample with encryptionAlgorithm := some "" }

lemma plainSample_fits : plainSample.Fits := ⟨by decide, by decide, nofun, nofun⟩

lemma blankSample_fits : blankSample.Fits := ⟨by decide, by decide, by decide, nofun⟩

theorem samples_signed_apart : plainSample.Fits ∧ blankSample.Fits ∧
    plainSample.signingPreimage ≠ blankSample.signingPreimage ∧
    { blankSample with encryptionAlgorithm := none } = plainSample ∧
    ¬ plainSample.signingBytes <+: blankSample.signingBytes := by
  have hsigned := signed_determines_body
  refine ⟨plainSample_fits, blankSample_fits, fun h => ?_, ?_, fun h => ?_⟩
  · have heq := hsigned.2.1 _ _ plainSample_fits blankSample_fits h
    cases congrArg encryptionAlgorithm heq
  · exact hsigned.2.1 { blankSample with encryptionAlgorithm := none } plainSample plainSample_fits
      plainSample_fits rfl
  · have hbytes := hsigned.2.2.2 _ _ plainSample_fits blankSample_fits h
    have hne : plainSample.signingBytes.length ≠ blankSample.signingBytes.length := by
      decide +kernel
    exact hne (congrArg List.length hbytes)

end LinkBody
end SignedNames
