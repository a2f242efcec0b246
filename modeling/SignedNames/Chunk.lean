import SignedNames.Link

/-!
# Chunks

A chunk holds links in the order they were appended and names the chunk before it. Chunks are
identified by the hash of their canonical bytes, so the identifier of one fixes all that came
before. Decoding ignores members it does not know, and of several members with one key takes the
first.
-/
namespace SignedNames

structure Chunk where
  /-- The next-older chunk; the oldest one has none. -/
  prev : Option Cid
  links : List Link
deriving DecidableEq

namespace Chunk

def prevEntry : Option Cid → List (String × Cbor.Canonical)
  | some cid => [("prev", .text cid.text)]
  | none => []

def canonical (c : Chunk) : Cbor.Canonical :=
  .map (("links", .array (c.links.map Link.canonical)) :: prevEntry c.prev)

def bytes (c : Chunk) : Bytes := c.canonical.encode

def cid (c : Chunk) : Cid := Cid.ofBytes c.bytes

def IsTail (c : Chunk) : Prop := c.prev = none

instance (c : Chunk) : Decidable c.IsTail := inferInstanceAs (Decidable (_ = _))

def latest? (c : Chunk) (name : String) : Option Link :=
  c.links.reverse.find? fun l => decide (l.HasName name)

end Chunk

namespace Cbor.Item

def isText (s : String) : Item → Bool
  | .text t => t = s
  | _ => false

def lookup (key : String) (entries : List (Item × Item)) : Option Item :=
  (entries.find? fun e => e.1.isText key).map (·.2)

end Cbor.Item

namespace Link

/-- The entries of a link's map in the binary form. -/
abbrev Entries := List (Cbor.Item × Cbor.Item)

namespace Entries

def text (entries : Entries) (key : String) : Except ChunkFault String :=
  match Cbor.Item.lookup key entries with
  | some (.text s) => .ok s
  | _ => .error (.linkField key)

def text? (entries : Entries) (key : String) : Except ChunkFault (Option String) :=
  match Cbor.Item.lookup key entries with
  | some (.text s) => .ok (some s)
  | none => .ok none
  | _ => .error (.linkField key)

def bool (entries : Entries) (key : String) : Except ChunkFault Bool :=
  match Cbor.Item.lookup key entries with
  | some (.bool b) => .ok b
  | _ => .error (.linkField key)

def below (entries : Entries) (bound : Nat) (key : String) : Except ChunkFault Nat :=
  match Cbor.Item.lookup key entries with
  | some (.integer n) =>
    if 0 ≤ n ∧ n.toNat < bound then .ok n.toNat else .error (.linkField key)
  | _ => .error (.linkField key)

def block (entries : Entries) (size : Nat) (key : String) : Except ChunkFault (Block size) :=
  match Cbor.Item.lookup key entries with
  | some (.bytes bs) =>
    match Block.ofBytes? size bs with
    | some block => .ok block
    | none => .error (.linkField key)
  | _ => .error (.linkField key)

end Entries

/-- The version and the flag are looked at before the other fields, the signature last. -/
def ofEntries (entries : Entries) : Except ChunkFault Link := do
  let schemaVersion ← entries.below UInt8.size "schemaVersion"
  let encrypted ← entries.bool "encrypted"
  let name ← entries.text "name"
  let payloadCid ← entries.text "payloadCid"
  let algorithm ← entries.text? "encryptionAlgorithm"
  let fingerprint ← entries.text? "encryptionKeyFingerprint"
  let chainId ← entries.below UInt64.size "chainId"
  let signerAddress ← entries.block 20 "signerAddress"
  let signedAt ← entries.below UInt64.size "signedAt"
  let nonce ← entries.block 16 "nonce"
  let signature ← entries.block 65 "signature"
  return ⟨⟨UInt8.ofNat schemaVersion, name, payloadCid, encrypted, algorithm, fingerprint,
    UInt64.ofNat chainId, ⟨signerAddress⟩, UInt64.ofNat signedAt, ⟨nonce⟩⟩, ⟨signature⟩⟩

def ofItem : Cbor.Item → Except ChunkFault Link
  | .map entries => ofEntries entries
  | _ => .error .linkNotMap

end Link

namespace Chunk

/-- The chunk that an item stands for. The older chunk is looked at before the links. -/
def ofItem : Cbor.Item → Except DataError Chunk
  | .map entries => do
    let prev ← match Cbor.Item.lookup "prev" entries with
      | none => pure none
      | some (.text s) => ((Cid.parse s).map some).mapError fun e => .format (.cid e)
      | some _ => .error (.malformedChunk .prev)
    let links ← match Cbor.Item.lookup "links" entries with
      | some (.array items) => (items.mapM Link.ofItem).mapError .malformedChunk
      | _ => .error (.malformedChunk .links)
    return ⟨prev, links⟩
  | _ => .error (.malformedChunk .notMap)

/-- The chunk at the front of some bytes; what follows it is ignored. -/
def decode (bs : Bytes) : Except DataError Chunk :=
  match Cbor.Item.read bs with
  | none => .error .binary
  | some (item, _) => ofItem item

end Chunk
end SignedNames
