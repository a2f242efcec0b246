import Mathlib
import SignedNames.Proofs.ChunkCodec
import SignedNames.Proofs.Cbor.Deterministic
import SignedNames.Proofs.SigningBytes

/-!
# Deterministic bytes of links and chunks

Whatever is signed or stored in the binary form is one deterministic map of its fields, and does not
depend on the order in which the fields are put together.
-/
namespace SignedNames
open Cbor

/-- The bytes are read to their end as one map with these fields, in some order. -/
def Cbor.IsMapOf (bs : Bytes) (fields : List (String × Canonical)) : Prop :=
  ∃ entries, Item.read bs = some (.map entries, []) ∧
    entries.Perm (fields.map fun e => (.text e.1, e.2.item))

lemma Cbor.isMapOf_encode {fields : List (String × Canonical)}
    (h : (Canonical.map fields).Encodable nestingLimit) :
    IsMapOf (Canonical.map fields).encode fields := by
  have hread := readWithin_encode h []
  rw [List.append_nil, Canonical.item_map] at hread
  exact ⟨_, hread, (sortBy_perm entryKey fields).map _⟩

lemma Cbor.Canonical.Encodable.distinctKeys {v : Canonical} (h : v.Encodable 0) :
    v.DistinctKeys := by
  cases h with
  | natural n => exact .natural n
  | bytes _ => exact .bytes _
  | text _ => exact .text _
  | bool b => exact .bool b

theorem LinkBody.deterministic_signingBytes {b : LinkBody} (h : b.Fits) :
    Deterministic b.signingBytes := by
  have hvalues := Link.allEntries_encodable (l := ⟨b, ⟨.replicate 65 0⟩⟩) h 0
  refine Canonical.deterministic_encode (entries_encodable h _) (.map b.entries_distinct ?_)
  exact fun e he => (hvalues e (List.mem_append_left _ he)).distinctKeys

lemma Link.distinctKeys {l : Link} (h : l.body.Fits) : l.canonical.DistinctKeys :=
  .map l.allEntries_distinct fun e he => (allEntries_encodable h 0 e he).distinctKeys

theorem Link.deterministic_bytes {l : Link} (h : l.body.Fits) : Deterministic l.bytes :=
  Canonical.deterministic_encode (canonical_encodable h _) (distinctKeys h)

lemma Chunk.distinctKeys {c : Chunk} (h : c.Fits) : c.canonical.DistinctKeys := by
  have hlinks : (Canonical.array (c.links.map Link.canonical)).DistinctKeys :=
    .array (List.forall_mem_map.2 fun l hl => Link.distinctKeys (h.links l hl))
  have hprev : ∀ e ∈ prevEntry c.prev, e.2.DistinctKeys := by
    cases c.prev with
    | none => exact fun e he => absurd he List.not_mem_nil
    | some p => exact List.forall_mem_singleton.2 (.text p.text)
  exact .map c.entries_distinct (List.forall_mem_cons.2 ⟨hlinks, hprev⟩)

theorem Chunk.deterministic_bytes {c : Chunk} (h : c.Fits) : Deterministic c.bytes :=
  Canonical.deterministic_encode (canonical_encodable h) (distinctKeys h)

/-- The bytes of bodies, links and chunks are deterministic maps of their fields, as they can be held
in memory, where the length of a text or list has 64 bits. No other deterministic bytes are read as
the same map, and the order in which the entries of a map are given does not show in its bytes. -/
theorem bytes_deterministic :
    (∀ b : LinkBody, b.Fits →
      Deterministic b.signingBytes ∧ IsMapOf b.signingBytes b.entries) ∧
      (∀ l : Link, l.body.Fits → Deterministic l.bytes ∧ IsMapOf l.bytes l.allEntries) ∧
      (∀ c : Chunk, c.Fits → Deterministic c.bytes ∧ IsMapOf c.bytes c.entries) ∧
      (∀ bs others : Bytes, Deterministic bs → Deterministic others →
        Item.read bs = Item.read others → bs = others) ∧
      ∀ entries others : List (String × Canonical), entries.Perm others →
        (entries.map Prod.fst).Nodup →
        (Canonical.map entries).encode = (Canonical.map others).encode := by
  refine ⟨?_, ?_, ?_, fun _ _ => eq_of_deterministic, fun _ _ => Canonical.encode_map_of_perm⟩
  · intro b h
    exact ⟨b.deterministic_signingBytes h, isMapOf_encode (b.entries_encodable h _)⟩
  · intro l h
    exact ⟨l.deterministic_bytes h, isMapOf_encode (l.canonical_encodable h _)⟩
  · intro c h
    exact ⟨c.deterministic_bytes h, isMapOf_encode (c.canonical_encodable h)⟩

/-- Also for a body whose fields are put together in the opposite order. -/
theorem samples_deterministic :
    LinkBody.plainSample.Fits ∧ Deterministic LinkBody.plainSample.signingBytes ∧
      IsMapOf LinkBody.plainSample.signingBytes LinkBody.plainSample.entries ∧
      Chunk.sample.Fits ∧ Deterministic Chunk.sample.bytes ∧
      IsMapOf Chunk.sample.bytes Chunk.sample.entries ∧
      (∀ l ∈ Chunk.sample.links, Deterministic l.bytes ∧ IsMapOf l.bytes l.allEntries) ∧
      (Canonical.map LinkBody.plainSample.entries.reverse).encode =
        LinkBody.plainSample.signingBytes := by
  obtain ⟨hbody, hlink, hchunk, -, hperm⟩ := bytes_deterministic
  obtain ⟨hsigning, hfields⟩ := hbody _ LinkBody.plainSample_fits
  obtain ⟨hbytes, hentries⟩ := hchunk _ Chunk.sample_fits
  refine ⟨LinkBody.plainSample_fits, hsigning, hfields, Chunk.sample_fits, hbytes, hentries,
    fun l hl => hlink l (Chunk.sample_fits.links l hl), ?_⟩
  have hreverse : LinkBody.plainSample.entries.reverse.Perm LinkBody.plainSample.entries :=
    List.reverse_perm _
  refine hperm _ _ hreverse ?_
  exact (hreverse.map Prod.fst).nodup_iff.2 LinkBody.plainSample.entries_distinct

end SignedNames
