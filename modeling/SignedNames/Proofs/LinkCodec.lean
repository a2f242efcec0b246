import Mathlib
import SignedNames.Chunk
import SignedNames.Proofs.Cbor.ReadBack

/-!
# Links in the binary form

The bytes of a link are read as a map in which every field is found under its name, so the link is
read back.
-/
namespace SignedNames

namespace Cbor

def itemEntries (entries : List (String × Canonical)) : List (Item × Item) :=
  (sortBy entryKey entries).map fun e => (.text e.1, e.2.item)

lemma lookup_map_text (entries : List (String × Canonical)) (key : String) :
    Item.lookup key (entries.map fun e => (.text e.1, e.2.item)) =
      (entries.find? fun e => e.1 = key).map fun e => e.2.item := by
  rw [Item.lookup, List.find?_map, Option.map_map]
  rfl

theorem lookup_itemEntries {entries : List (String × Canonical)} {key : String} {v : Canonical}
    (distinct : (entries.map Prod.fst).Nodup) (h : (key, v) ∈ entries) :
    Item.lookup key (itemEntries entries) = some v.item := by
  have hperm := sortBy_perm entryKey entries
  have hmem : (key, v) ∈ sortBy entryKey entries := hperm.mem_iff.2 h
  have hnodup : ((sortBy entryKey entries).map Prod.fst).Nodup :=
    (hperm.map Prod.fst).nodup_iff.2 distinct
  rw [itemEntries, lookup_map_text]
  generalize sortBy entryKey entries = sorted at hmem hnodup
  induction sorted with
  | nil => simp at hmem
  | cons e rest ih =>
    rw [List.map_cons, List.nodup_cons] at hnodup
    rcases List.mem_cons.1 hmem with rfl | hrest
    · simp
    · have hne : e.1 ≠ key := by
        rintro rfl
        exact hnodup.1 (List.mem_map.2 ⟨_, hrest, rfl⟩)
      rw [List.find?_cons_of_neg (by simpa using hne)]
      exact ih hrest hnodup.2

theorem lookup_itemEntries_none {entries : List (String × Canonical)} {key : String}
    (h : key ∉ entries.map Prod.fst) : Item.lookup key (itemEntries entries) = none := by
  rw [itemEntries, lookup_map_text, Option.map_eq_none_iff, List.find?_eq_none]
  intro e he hkey
  apply h
  rw [List.mem_map]
  exact ⟨e, (sortBy_perm entryKey entries).mem_iff.1 he, by simpa using hkey⟩

end Cbor

namespace Link.Entries
open Cbor

variable {entries : List (String × Canonical)} (key : String)

lemma text_itemEntries {s : String} (distinct : (entries.map Prod.fst).Nodup)
    (h : (key, .text s) ∈ entries) : text (itemEntries entries) key = .ok s := by
  simp only [text, lookup_itemEntries distinct h, Canonical.item]

lemma text?_itemEntries {o : Option String} (distinct : (entries.map Prod.fst).Nodup)
    (hsome : ∀ s, o = some s → (key, Canonical.text s) ∈ entries)
    (hnone : o = none → key ∉ entries.map Prod.fst) :
    text? (itemEntries entries) key = .ok o := by
  cases o with
  | none => simp only [text?, lookup_itemEntries_none (hnone rfl)]
  | some s => simp only [text?, lookup_itemEntries distinct (hsome s rfl), Canonical.item]

lemma bool_itemEntries {b : Bool} (distinct : (entries.map Prod.fst).Nodup)
    (h : (key, .bool b) ∈ entries) : bool (itemEntries entries) key = .ok b := by
  simp only [bool, lookup_itemEntries distinct h, Canonical.item]

lemma below_itemEntries {n : UInt64} {b : Nat} (distinct : (entries.map Prod.fst).Nodup)
    (h : (key, .natural n) ∈ entries) (hn : n.toNat < b) :
    below (itemEntries entries) b key = .ok n.toNat := by
  simp only [below, lookup_itemEntries distinct h, Canonical.item]
  rw [if_pos ⟨Int.natCast_nonneg _, by simpa using hn⟩, Int.toNat_natCast]

lemma block_itemEntries {size : Nat} {b : Block size} (distinct : (entries.map Prod.fst).Nodup)
    (h : (key, .bytes b.bytes) ∈ entries) : block (itemEntries entries) size key = .ok b := by
  simp only [block, lookup_itemEntries distinct h, Canonical.item, Block.ofBytes?_bytes]

end Link.Entries

/-- The length of the text is a number of 64 bits, as it is for every text in memory. -/
def Text.Fits (s : String) : Prop := (Text.utf8 s).length < UInt64.size

instance (s : String) : Decidable (Text.Fits s) := inferInstanceAs (Decidable (_ < _))

structure LinkBody.Fits (b : LinkBody) : Prop where
  name : Text.Fits b.name
  payloadCid : Text.Fits b.payloadCid
  encryptionAlgorithm : ∀ s ∈ b.encryptionAlgorithm, Text.Fits s
  encryptionKeyFingerprint : ∀ s ∈ b.encryptionKeyFingerprint, Text.Fits s

namespace Link

def allEntries (l : Link) : List (String × Cbor.Canonical) :=
  l.body.entries ++ [("signature", .bytes l.signature.block.bytes)]

lemma canonical_eq (l : Link) : l.canonical = .map l.allEntries := rfl

lemma allEntries_distinct (l : Link) : (l.allEntries.map Prod.fst).Nodup := by
  obtain ⟨⟨_, _, _, _, algorithm, fingerprint, _, _, _, _⟩, _⟩ := l
  cases algorithm <;> cases fingerprint <;>
    simp [allEntries, LinkBody.entries, LinkBody.optionalEntry]

lemma optionalEntry_encodable {o : Option String} (h : ∀ s ∈ o, Text.Fits s) (key : String)
    (depth : Nat) : ∀ e ∈ LinkBody.optionalEntry key o, e.2.Encodable depth := by
  cases o with
  | none => simp [LinkBody.optionalEntry]
  | some s => simpa [LinkBody.optionalEntry] using .text (h s rfl)

lemma allEntries_encodable {l : Link} (h : l.body.Fits) (depth : Nat) :
    ∀ e ∈ l.allEntries, e.2.Encodable depth := by
  have block {n : Nat} (b : Block n) (hn : n < UInt64.size) :
      (Cbor.Canonical.bytes b.bytes).Encodable depth := .bytes (by rwa [b.length_eq])
  have halgorithm :=
    optionalEntry_encodable h.encryptionAlgorithm "encryptionAlgorithm" depth
  have hfingerprint :=
    optionalEntry_encodable h.encryptionKeyFingerprint "encryptionKeyFingerprint" depth
  simp only [allEntries, LinkBody.entries, List.forall_mem_append, List.forall_mem_cons,
    List.not_mem_nil, false_implies, implies_true, and_true]
  refine ⟨⟨⟨⟨⟨.natural _, .text h.name, .text h.payloadCid, .bool _⟩, halgorithm⟩, hfingerprint⟩,
    .natural _, ?_, .natural _, ?_⟩, ?_⟩
  · exact block l.body.signerAddress.block (by decide)
  · exact block l.body.nonce.block (by decide)
  · exact block l.signature.block (by decide)

lemma allEntries_keys (l : Link) :
    l.allEntries.length < UInt64.size ∧ ∀ e ∈ l.allEntries, Text.Fits e.1 := by
  obtain ⟨⟨_, _, _, _, algorithm, fingerprint, _, _, _, _⟩, _⟩ := l
  cases algorithm <;> cases fingerprint <;>
    simp [allEntries, LinkBody.entries, LinkBody.optionalEntry, Text.Fits, Text.utf8] <;> decide

theorem canonical_encodable {l : Link} (h : l.body.Fits) (depth : Nat) :
    l.canonical.Encodable (depth + 1) :=
  .map l.allEntries_keys.1 l.allEntries_keys.2 (allEntries_encodable h depth)

theorem ofItem_canonical (l : Link) : Link.ofItem l.canonical.item = .ok l := by
  have hd := l.allEntries_distinct
  have schemaVersion := Entries.below_itemEntries "schemaVersion" (b := UInt8.size)
    (n := l.body.schemaVersion.toUInt64) hd (by simp [allEntries, LinkBody.entries])
    (by simpa using l.body.schemaVersion.toNat_lt)
  have encrypted := Entries.bool_itemEntries "encrypted" (b := l.body.encrypted) hd
    (by simp [allEntries, LinkBody.entries])
  have name := Entries.text_itemEntries "name" (s := l.body.name) hd
    (by simp [allEntries, LinkBody.entries])
  have payloadCid := Entries.text_itemEntries "payloadCid" (s := l.body.payloadCid) hd
    (by simp [allEntries, LinkBody.entries])
  have algorithm := Entries.text?_itemEntries "encryptionAlgorithm" hd
    (fun s (hs : l.body.encryptionAlgorithm = some s) => by
      simp [allEntries, LinkBody.entries, LinkBody.optionalEntry, hs])
    (fun hs => by
      cases hf : l.body.encryptionKeyFingerprint <;>
        simp [allEntries, LinkBody.entries, LinkBody.optionalEntry, hs, hf])
  have fingerprint := Entries.text?_itemEntries "encryptionKeyFingerprint" hd
    (fun s (hs : l.body.encryptionKeyFingerprint = some s) => by
      simp [allEntries, LinkBody.entries, LinkBody.optionalEntry, hs])
    (fun hs => by
      cases ha : l.body.encryptionAlgorithm <;>
        simp [allEntries, LinkBody.entries, LinkBody.optionalEntry, hs, ha])
  have chainId := Entries.below_itemEntries "chainId" (n := l.body.chainId) hd
    (by simp [allEntries, LinkBody.entries]) l.body.chainId.toNat_lt
  have signerAddress := Entries.block_itemEntries "signerAddress"
    (b := l.body.signerAddress.block) hd (by simp [allEntries, LinkBody.entries])
  have signedAt := Entries.below_itemEntries "signedAt" (n := l.body.signedAt) hd
    (by simp [allEntries, LinkBody.entries]) l.body.signedAt.toNat_lt
  have nonce := Entries.block_itemEntries "nonce" (b := l.body.nonce.block) hd
    (by simp [allEntries, LinkBody.entries])
  have signature := Entries.block_itemEntries "signature" (b := l.signature.block) hd
    (by simp [allEntries])
  rw [canonical_eq, Cbor.Canonical.item_map]
  change ofEntries (Cbor.itemEntries l.allEntries) = .ok l
  simp only [ofEntries, schemaVersion, encrypted, name, payloadCid, algorithm, fingerprint, chainId,
    signerAddress, signedAt, nonce, signature]
  change Except.ok (Link.mk (LinkBody.mk (UInt8.ofNat l.body.schemaVersion.toUInt64.toNat) _ _ _ _ _
    (UInt64.ofNat l.body.chainId.toNat) _ (UInt64.ofNat l.body.signedAt.toNat) _) _) = _
  simp

end Link
end SignedNames
