import Mathlib
import SignedNames.Proofs.CidText
import SignedNames.Proofs.LinkCodec

/-!
# Chunks in the binary form

A chunk is read back from its bytes, whatever comes after them. So different chunks have different
bytes, and none starts with the bytes of another.
-/
namespace SignedNames.Chunk
open Cbor

/-- A chunk as it can be held in memory: the lengths of its texts and of the list of its links are
numbers of 64 bits. -/
structure Fits (c : Chunk) : Prop where
  length : c.links.length < UInt64.size
  links : ∀ l ∈ c.links, l.body.Fits

def entries (c : Chunk) : List (String × Canonical) :=
  ("links", .array (c.links.map Link.canonical)) :: prevEntry c.prev

lemma entries_distinct (c : Chunk) : (c.entries.map Prod.fst).Nodup := by
  cases h : c.prev <;> simp [entries, prevEntry, h]

lemma text_fits (c : Cid) : Text.Fits c.text := by
  rw [Text.Fits, Cid.length_utf8_text]
  decide

lemma canonical_encodable {c : Chunk} (h : c.Fits) : c.canonical.Encodable nestingLimit := by
  have hlinks : (Canonical.array (c.links.map Link.canonical)).Encodable (nestingLimit - 1) := by
    refine .array (by simpa using h.length) fun v hv => ?_
    obtain ⟨l, hl, rfl⟩ := List.mem_map.1 hv
    exact Link.canonical_encodable (h.links l hl) _
  have hkeys : Text.Fits "links" ∧ Text.Fits "prev" := by decide
  have hentries : c.entries.length < UInt64.size ∧ (∀ e ∈ c.entries, Text.Fits e.1) ∧
      ∀ e ∈ c.entries, e.2.Encodable (nestingLimit - 1) := by
    cases hp : c.prev with
    | none => simp [entries, prevEntry, hp, hkeys, hlinks]
    | some p =>
      have htext : (Canonical.text p.text).Encodable (nestingLimit - 1) := .text (text_fits p)
      simp [entries, prevEntry, hp, hkeys, hlinks, htext]
      decide
  exact .map hentries.1 hentries.2.1 hentries.2.2

lemma mapM_ofItem (links : List Link) :
    (links.map fun l => l.canonical.item).mapM Link.ofItem = .ok links := by
  induction links with
  | nil => rfl
  | cons l links ih =>
    rw [List.map_cons, List.mapM_cons, Link.ofItem_canonical, ih]
    rfl

theorem ofItem_canonical (c : Chunk) : Chunk.ofItem c.canonical.item = .ok c := by
  have hlinks : Item.lookup "links" (itemEntries c.entries) =
      some (.array (c.links.map fun l => l.canonical.item)) := by
    rw [lookup_itemEntries c.entries_distinct (List.mem_cons_self ..), Canonical.item,
      Canonical.itemsOf_eq, List.map_map]
    rfl
  have hprev : Item.lookup "prev" (itemEntries c.entries) = c.prev.map fun p => .text p.text := by
    cases hp : c.prev with
    | none => exact lookup_itemEntries_none (by simp [entries, prevEntry, hp])
    | some p =>
      have hmem : ("prev", Canonical.text p.text) ∈ c.entries := by simp [entries, prevEntry, hp]
      rw [lookup_itemEntries c.entries_distinct hmem, Canonical.item]
      rfl
  have hitem : c.canonical.item = .map (itemEntries c.entries) := Canonical.item_map c.entries
  simp only [hitem, Chunk.ofItem, hlinks, hprev, mapM_ofItem]
  obtain ⟨prev, links⟩ := c
  cases prev with
  | none => rfl
  | some p =>
    simp only [Option.map_some, Cid.parse_text]
    rfl

lemma read_bytes {c : Chunk} (h : c.Fits) (rest : Bytes) :
    Item.read (c.bytes ++ rest) = some (c.canonical.item, rest) :=
  readWithin_encode (canonical_encodable h) rest

theorem decode_append {c : Chunk} (h : c.Fits) (rest : Bytes) :
    decode (c.bytes ++ rest) = .ok c := by
  simp only [decode, read_bytes h, ofItem_canonical]

@[simp] theorem decode_bytes {c : Chunk} (h : c.Fits) : decode c.bytes = .ok c := by
  simpa using decode_append h []

theorem eq_of_bytes_eq {c d : Chunk} (hc : c.Fits) (hd : d.Fits) (h : c.bytes = d.bytes) :
    c = d := by
  have hdecode := decode_bytes hc
  rw [h, decode_bytes hd] at hdecode
  cases hdecode
  rfl

/-- Chunks are read back from the front of any bytes, and are told apart by any bytes that both of
theirs are at the front of. -/
theorem bytes_self_delimiting {c : Chunk} (hc : c.Fits) :
    (∀ rest, decode (c.bytes ++ rest) = .ok c) ∧
      (∀ d : Chunk, d.Fits → d.bytes = c.bytes → d = c) ∧
      ∀ d : Chunk, d.Fits → c.bytes <+: d.bytes → c.bytes = d.bytes := by
  refine ⟨decode_append hc, fun d hd h => eq_of_bytes_eq hd hc h, ?_⟩
  rintro d hd ⟨rest, hrest⟩
  have hdecode := decode_append hc rest
  rw [hrest, decode_bytes hd] at hdecode
  cases hdecode
  rfl

/-- A chunk with an older one, and links with and without the optional texts, some of them empty. -/
def sample : Chunk :=
  ⟨some (Cid.ofBytes []), [
    ⟨⟨255, "Größe", "", true, none, some "", 24, ⟨.replicate 20 0xab⟩, 0xffffffffffffffff,
      ⟨.replicate 16 1⟩⟩, ⟨.replicate 65 0⟩⟩,
    ⟨⟨1, "", "Qm1", false, some "x25519", none, 65536, ⟨.replicate 20 0⟩, 0, ⟨.replicate 16 0⟩⟩,
      ⟨.replicate 65 0xff⟩⟩]⟩

lemma sample_fits : sample.Fits := by
  refine ⟨by decide, fun l hl => ?_⟩
  simp only [sample, List.mem_cons, List.not_mem_nil, or_false] at hl
  rcases hl with rfl | rfl <;> exact ⟨by decide, by decide, by decide, by decide⟩

theorem sample_self_delimiting : sample.Fits ∧
    (∀ rest, decode (sample.bytes ++ rest) = .ok sample) ∧
    (∀ d : Chunk, d.Fits → d.bytes = sample.bytes → d = sample) ∧
    ∀ d : Chunk, d.Fits → sample.bytes <+: d.bytes → sample.bytes = d.bytes :=
  ⟨sample_fits, bytes_self_delimiting sample_fits⟩

end SignedNames.Chunk
