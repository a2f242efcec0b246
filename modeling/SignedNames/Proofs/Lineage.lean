import Mathlib
import SignedNames.NameIndex
import SignedNames.Proofs.ChunkCodec
import SignedNames.Proofs.NameMap

/-!
# Chunks from new to old

Chunks of which each names the next as the one before it. The identifier of the newest fixes all of
them, and the index that results from putting them on top of each other gives for every name the
newest chunk that holds it.
-/
namespace SignedNames

/-- Some link of the chunk has a name, given in lower case. -/
def Chunk.Holds (c : Chunk) (key : String) : Prop := ∃ l ∈ c.links, l.body.key = key

instance (c : Chunk) (key : String) : Decidable (c.Holds key) :=
  inferInstanceAs (Decidable (∃ l ∈ c.links, _))

namespace Lineage

def tip : List Chunk → Option Cid
  | [] => none
  | c :: _ => some c.cid

def Linked : List Chunk → Prop
  | [] => True
  | c :: older => c.prev = tip older ∧ Linked older

/-- The index after all chunks were put on top of each other. -/
def index? : List Chunk → Option NameIndex
  | [] => none
  | c :: older => some (.advance (index? older) c.cid c)

def links (cs : List Chunk) : List Link := cs.flatMap fun c => c.links.reverse

@[simp] theorem tip_nil : tip [] = none := rfl

@[simp] theorem tip_cons (c : Chunk) (older : List Chunk) : tip (c :: older) = some c.cid := rfl

@[simp] theorem index?_nil : index? [] = none := rfl

@[simp] theorem index?_cons (c : Chunk) (older : List Chunk) :
    index? (c :: older) = some (.advance (index? older) c.cid c) := rfl

@[simp] theorem map_head_index? (cs : List Chunk) : (index? cs).map (·.head) = tip cs := by
  cases cs <;> rfl

lemma isSome_index?_iff (cs : List Chunk) : (index? cs).isSome ↔ cs ≠ [] := by
  cases cs <;> simp

lemma Linked.of_suffix {cs ds : List Chunk} (h : Linked ds) (hs : cs <:+ ds) : Linked cs := by
  induction ds with
  | nil => exact List.suffix_nil.1 hs ▸ h
  | cons d older ih =>
    rcases List.suffix_cons_iff.1 hs with rfl | hs
    · exact h
    · exact ih h.2 hs

lemma get?_foldl_insert (cid : Cid) (links : List Link) (m : NameMap Cid) (key : String) :
    (links.foldl (fun entries l => entries.insert l.body.key cid) m).get? key =
      if ∃ l ∈ links, l.body.key = key then some cid else m.get? key := by
  induction links generalizing m with
  | nil => simp
  | cons l links ih =>
    rw [List.foldl_cons, ih, NameMap.get?_insert]
    by_cases hl : l.body.key = key
    · simp [hl]
    · simp [hl, Ne.symm hl]

def entries (cs : List Chunk) : NameMap Cid := ((index? cs).map (·.entries)).getD .empty

theorem get?_entries (cs : List Chunk) (key : String) :
    (entries cs).get? key = (cs.find? fun c => decide (c.Holds key)).map Chunk.cid := by
  induction cs with
  | nil => rfl
  | cons c older ih =>
    have hentries : entries (c :: older) =
        c.links.foldl (fun entries l => entries.insert l.body.key c.cid) (entries older) := rfl
    rw [hentries, get?_foldl_insert]
    by_cases h : c.Holds key
    · rw [List.find?_cons_of_pos (by simpa using h)]
      exact if_pos h
    · rw [List.find?_cons_of_neg (by simpa using h), ← ih]
      exact if_neg h

theorem get?_of_index? {cs : List Chunk} {i : NameIndex} (h : index? cs = some i) (key : String) :
    i.entries.get? key = (cs.find? fun c => decide (c.Holds key)).map Chunk.cid := by
  rw [← get?_entries, entries, h]
  rfl

lemma latest?_isSome_iff (c : Chunk) (name : String) :
    (c.latest? name).isSome ↔ c.Holds (Text.lower name) := by
  simp only [Chunk.latest?, List.find?_isSome, List.mem_reverse, decide_eq_true_eq]
  rfl

theorem find?_links (cs : List Chunk) (name : String) :
    ((links cs).find? fun l => decide (l.HasName name)) =
      (cs.find? fun c => decide (c.Holds (Text.lower name))).bind (·.latest? name) := by
  induction cs with
  | nil => rfl
  | cons c older ih =>
    have hlinks : links (c :: older) = c.links.reverse ++ links older := rfl
    rw [hlinks, List.find?_append]
    change (c.latest? name).or _ = _
    have hsome := latest?_isSome_iff c name
    by_cases h : c.Holds (Text.lower name)
    · obtain ⟨l, hl⟩ := Option.isSome_iff_exists.1 (hsome.2 h)
      rw [List.find?_cons_of_pos (by simpa using h), hl, Option.bind_some, hl, Option.some_or]
    · have hnone : c.latest? name = none := by
        simpa [h] using hsome
      rw [List.find?_cons_of_neg (by simpa using h), hnone, Option.none_or, ih]

def Kept (blob? : Cid → Option Bytes) (cs : List Chunk) : Prop :=
  ∀ c ∈ cs, c.Fits ∧ blob? c.cid = some c.bytes

lemma Kept.of_suffix {blob? : Cid → Option Bytes} {cs ds : List Chunk} (h : Kept blob? ds)
    (hs : cs <:+ ds) : Kept blob? cs := fun c hc => h c (hs.subset hc)

/-- The newest identifier fixes all chunks. -/
theorem eq_of_tip_eq {blob? : Cid → Option Bytes} {cs ds : List Chunk} (hcs : Linked cs)
    (hds : Linked ds) (kcs : Kept blob? cs) (kds : Kept blob? ds) (h : tip cs = tip ds) :
    cs = ds := by
  induction cs generalizing ds with
  | nil =>
    cases ds with
    | nil => rfl
    | cons d older => simp at h
  | cons c cs ih =>
    cases ds with
    | nil => simp at h
    | cons d ds =>
      have hcid : c.cid = d.cid := by simpa using h
      obtain ⟨fc, hc⟩ := kcs c (List.mem_cons_self ..)
      obtain ⟨fd, hd⟩ := kds d (List.mem_cons_self ..)
      have hbytes : c.bytes = d.bytes := by
        rw [hcid, hd] at hc
        exact (Option.some.inj hc).symm
      have hcd : c = d := Chunk.eq_of_bytes_eq fc fd hbytes
      have holder : cs = ds := by
        apply ih hcs.2 hds.2 (kcs.of_suffix (List.suffix_cons ..))
          (kds.of_suffix (List.suffix_cons ..))
        rw [← hcs.1, ← hds.1, hcd]
      rw [hcd, holder]

end Lineage
end SignedNames
