import Mathlib
import SignedNames.Proofs.ChunkCodec
import SignedNames.Proofs.SigningBytes

/-!
# Chunks written by others

Decoding looks up the names it knows and takes the first entry under each. So entries may come in
another order, entries under other keys may stand between them, and items may be written in any of
the ways that are allowed: neither the chunk nor the fault that is told changes.
-/
namespace SignedNames

namespace Cbor

/-- A change to the entries of a map that does not show when some names are looked up. -/
inductive Unnoticed (names : List String) : List (Item × Item) → List (Item × Item) → Prop
  | permuted (before after : List (Item × Item)) {entries others : List (Item × Item)}
    (h : entries.Perm others) (distinct : (entries.map Prod.fst).Nodup) :
    Unnoticed names (before ++ entries ++ after) (before ++ others ++ after)
  | added (before after : List (Item × Item)) {key : Item} (h : ∀ n ∈ names, key ≠ .text n)
    (value : Item) : Unnoticed names (before ++ after) (before ++ (key, value) :: after)
  | repeated (before between after : List (Item × Item)) (key : String) (first later : Item) :
    Unnoticed names (before ++ (.text key, first) :: (between ++ after))
      (before ++ (.text key, first) :: (between ++ (.text key, later) :: after))

namespace Item

lemma isText_iff {s : String} {key : Item} : key.isText s = true ↔ key = .text s := by
  cases key <;> simp [isText]

variable {n : String}

lemma lookup_cons_of_eq {key : Item} (h : key = .text n) (value : Item)
    (entries : List (Item × Item)) : lookup n ((key, value) :: entries) = some value := by
  have htext : key.isText n = true := isText_iff.2 h
  simp only [lookup, List.find?_cons, htext, Option.map_some]

lemma lookup_cons_of_ne {key : Item} (h : key ≠ .text n) (value : Item)
    (entries : List (Item × Item)) : lookup n ((key, value) :: entries) = lookup n entries := by
  have htext : key.isText n = false := Bool.eq_false_iff.2 (mt isText_iff.1 h)
  simp only [lookup, List.find?_cons, htext]

lemma lookup_append (entries others : List (Item × Item)) :
    lookup n (entries ++ others) = (lookup n entries).or (lookup n others) := by
  simp only [lookup, List.find?_append, Option.map_or]

lemma lookup_perm {entries others : List (Item × Item)} (h : entries.Perm others)
    (distinct : (entries.map Prod.fst).Nodup) : lookup n entries = lookup n others := by
  induction h with
  | nil => rfl
  | cons e _ ih =>
    rw [List.map_cons, List.nodup_cons] at distinct
    by_cases he : e.1 = .text n
    · rw [lookup_cons_of_eq he, lookup_cons_of_eq he]
    · rw [lookup_cons_of_ne he, lookup_cons_of_ne he, ih distinct.2]
  | swap e f rest =>
    have hne : f.1 ≠ e.1 := by
      simp only [List.map_cons, List.nodup_cons, List.mem_cons, not_or] at distinct
      exact distinct.1.1
    by_cases he : e.1 = .text n
    · have hf : f.1 ≠ .text n := he ▸ hne
      rw [lookup_cons_of_ne hf, lookup_cons_of_eq he, lookup_cons_of_eq he]
    · by_cases hf : f.1 = .text n
      · rw [lookup_cons_of_eq hf, lookup_cons_of_ne he, lookup_cons_of_eq hf]
      · simp only [lookup_cons_of_ne he, lookup_cons_of_ne hf]
  | trans h _ ih ih' =>
    exact (ih distinct).trans (ih' ((h.map Prod.fst).nodup_iff.1 distinct))

end Item

theorem Unnoticed.lookup_eq {names : List String} {entries others : List (Item × Item)}
    (h : Unnoticed names entries others) {n : String} (hn : n ∈ names) :
    Item.lookup n entries = Item.lookup n others := by
  cases h with
  | permuted before after h distinct => simp only [Item.lookup_append, Item.lookup_perm h distinct]
  | added before after h value => rw [Item.lookup_append, Item.lookup_append,
      Item.lookup_cons_of_ne (h n hn)]
  | repeated before between after key first later =>
    rw [Item.lookup_append, Item.lookup_append]
    by_cases hkey : Item.text key = .text n
    · rw [Item.lookup_cons_of_eq hkey, Item.lookup_cons_of_eq hkey]
    · simp only [Item.lookup_cons_of_ne hkey, Item.lookup_append]

end Cbor

open Cbor

def Link.wireNames : List String :=
  ["schemaVersion", "name", "payloadCid", "encrypted", "encryptionAlgorithm",
    "encryptionKeyFingerprint", "chainId", "signerAddress", "signedAt", "nonce", "signature"]

theorem Link.ofEntries_congr {entries others : List (Item × Item)}
    (h : ∀ n ∈ wireNames, Item.lookup n entries = Item.lookup n others) :
    ofEntries entries = ofEntries others := by
  simp only [wireNames, List.forall_mem_cons, List.not_mem_nil, false_implies, implies_true,
    and_true] at h
  simp only [ofEntries, Entries.text, Entries.text?, Entries.bool, Entries.below, Entries.block, h]

namespace Chunk

def wireNames : List String := ["prev", "links"]

/-- A change to the item of a chunk that decoding does not notice, in the map of the chunk or of one
link. -/
inductive Unnoticed : Item → Item → Prop
  | chunk {entries others : List (Item × Item)} (h : Cbor.Unnoticed wireNames entries others) :
    Unnoticed (.map entries) (.map others)
  | link (before after : List (Item × Item)) (earlier later : List Item)
    {entries others : List (Item × Item)} (h : Cbor.Unnoticed Link.wireNames entries others) :
    Unnoticed
      (.map (before ++ (.text "links", .array (earlier ++ .map entries :: later)) :: after))
      (.map (before ++ (.text "links", .array (earlier ++ .map others :: later)) :: after))

/-- The items can be had from each other by changes that decoding does not notice. -/
def Alike : Item → Item → Prop := Relation.EqvGen Unnoticed

lemma mapM_replace {α β ε : Type} {f : α → Except ε β} (earlier later : List α) {a b : α}
    (h : f a = f b) : (earlier ++ a :: later).mapM f = (earlier ++ b :: later).mapM f := by
  simp only [List.mapM_append, List.mapM_cons, h]

theorem Unnoticed.ofItem_eq {x y : Item} (h : Unnoticed x y) : ofItem x = ofItem y := by
  cases h with
  | chunk h =>
    have hprev := h.lookup_eq (n := "prev") (by simp [wireNames])
    have hlinks := h.lookup_eq (n := "links") (by simp [wireNames])
    simp only [ofItem, hprev, hlinks]
  | @link before after earlier later entries others h =>
    have hlink : Link.ofItem (.map entries) = Link.ofItem (.map others) :=
      Link.ofEntries_congr fun n hn => h.lookup_eq hn
    have hprev : Item.text "links" ≠ .text "prev" := by simp
    simp only [ofItem, Item.lookup_append, Item.lookup_cons_of_ne hprev]
    -- An earlier entry under the name hides both lists of links.
    cases Item.lookup "links" before with
    | some item => simp only [Option.some_or]
    | none =>
      simp only [Option.none_or, Item.lookup_cons_of_eq rfl, mapM_replace earlier later hlink]

theorem Alike.ofItem_eq {x y : Item} (h : Alike x y) : ofItem x = ofItem y := by
  induction h with
  | rel x y h => exact h.ofItem_eq
  | refl x => rfl
  | symm x y _ ih => exact ih.symm
  | trans x y z _ _ ih ih' => exact ih.trans ih'

/-- However the item of a chunk is written, decoding sees the item alone. -/
theorem decode_of_spells {bs : Bytes} {item : Item} (h : Spells nestingLimit bs item)
    (rest : Bytes) : decode (bs ++ rest) = ofItem item := by
  simp only [decode, Item.read, h.read rest]

/-- Decoding has one outcome for items that are alike, in whatever bytes, whether a chunk or a
fault. The bytes of a chunk are one way to write its item, and every way to write an item like it is
decoded to the chunk. -/
theorem decode_extensible :
    (∀ x y : Item, Alike x y → ofItem x = ofItem y) ∧
      (∀ x y : Item, Alike x y → ∀ bs others : Bytes, Spells nestingLimit bs x →
        Spells nestingLimit others y → ∀ rest more : Bytes,
          decode (bs ++ rest) = decode (others ++ more)) ∧
      ∀ c : Chunk, (c.Fits → Spells nestingLimit c.bytes c.canonical.item) ∧
        ∀ y : Item, Alike c.canonical.item y → ∀ bs : Bytes, Spells nestingLimit bs y →
          ∀ rest : Bytes, decode (bs ++ rest) = .ok c := by
  refine ⟨fun x y h => h.ofItem_eq, ?_, fun c => ⟨fun h => (canonical_encodable h).spells, ?_⟩⟩
  · intro x y h bs others hbs hothers rest more
    rw [decode_of_spells hbs, decode_of_spells hothers, h.ofItem_eq]
  · intro y h bs hbs rest
    rw [decode_of_spells hbs, ← h.ofItem_eq, ofItem_canonical]

/-- A number in two to the power of `k` bytes, whether it needs them or not. -/
def wideHead (major k n : Nat) : Bytes :=
  firstByte major (24 + k) :: BigEndian.digits (2 ^ k) n

lemma announces_wideHead (major : Nat) {k n : Nat} (hk : k < 4)
    (hn : n < BigEndian.range (2 ^ k)) : Announces major n (wideHead major k n) := by
  have hspelled := Head.Spelled.following major hk (BigEndian.length_digits (2 ^ k) n)
  rw [BigEndian.value_digits_of_lt hn] at hspelled
  exact ⟨24 + k, hspelled⟩

/-- The entries of a link with their bytes, in the order of the fields, and one under a name that
only chunks know. -/
def strangeFields (l : Link) : List ((Bytes × Item) × (Bytes × Item)) :=
  (l.allEntries.map fun e => ((textBytes e.1, .text e.1), (e.2.encode, e.2.item))) ++
    [((textBytes "prev", .text "prev"), ([firstByte 7 21], .bool true))]

def strangeLink (l : Link) : Bytes × Item :=
  (wideHead 5 1 (strangeFields l).length ++ (strangeFields l).flatMap fun e => e.1.1 ++ e.2.1,
    .map ((strangeFields l).map fun e => (e.1.2, e.2.2)))

/-- The entries of a chunk of one link with their bytes. Numbers and lengths are wider than needed,
one list is of indefinite length, and a second entry comes under the name of the links. -/
def strangeEntries (l : Link) : List ((Bytes × Item) × (Bytes × Item)) :=
  [((wideHead 0 3 7, .integer (7 : Nat)),
      ([firstByte 4 31] ++ [firstByte 7 22] ++ [endMark], .array [.null])),
    ((textBytes "links", .text "links"),
      (wideHead 4 2 1 ++ (strangeLink l).1, .array [(strangeLink l).2])),
    ((textBytes "links", .text "links"), ([firstByte 7 22], .null))]

def strangeItem (l : Link) : Item := .map ((strangeEntries l).map fun e => (e.1.2, e.2.2))

def strangeBytes (l : Link) : Bytes :=
  [firstByte 5 31] ++ ((strangeEntries l).flatMap fun e => e.1.1 ++ e.2.1) ++ [endMark]

section Strange
variable {l : Link}

lemma spells_strangeLink (h : l.body.Fits) (depth : Nat) :
    Spells (depth + 1) (strangeLink l).1 (strangeLink l).2 := by
  have hlength : (strangeFields l).length < BigEndian.range (2 ^ 1) := by
    have hentries : l.allEntries.length ≤ 11 := by
      obtain ⟨⟨_, _, _, _, algorithm, fingerprint, _, _, _, _⟩, _⟩ := l
      cases algorithm <;> cases fingerprint <;>
        simp [Link.allEntries, LinkBody.entries, LinkBody.optionalEntry]
    have hrange : 12 < BigEndian.range (2 ^ 1) := by decide
    rw [strangeFields, List.length_append, List.length_map, List.length_singleton]
    omega
  refine .map (announces_wideHead 5 (by decide) hlength) ?_ ?_
  · refine List.forall_mem_append.2 ⟨List.forall_mem_map.2 fun e he => ?_, ?_⟩
    · exact .text (announces_headBytes 3 (l.allEntries_keys.2 e he))
    · exact List.forall_mem_singleton.2 (.text (announces_headBytes 3 (by decide)))
  · refine List.forall_mem_append.2 ⟨List.forall_mem_map.2 fun e he => ?_, ?_⟩
    · exact (Link.allEntries_encodable h depth e he).spells
    · exact List.forall_mem_singleton.2 (.bool true)

lemma spells_strange (h : l.body.Fits) : Spells nestingLimit (strangeBytes l) (strangeItem l) := by
  have hname : Spells 255 (textBytes "links") (.text "links") :=
    .text (announces_headBytes 3 (by decide))
  have hseven : Spells 255 (wideHead 0 3 7) (.integer (7 : Nat)) :=
    .natural (announces_wideHead 0 (by decide) (by decide))
  have hnull : Spells 254 ([firstByte 7 22], Item.null).1 ([firstByte 7 22], Item.null).2 := .null
  have hnulls : Spells 255 ([firstByte 4 31] ++ [firstByte 7 22] ++ [endMark]) (.array [.null]) :=
    .arrayUntilEnd (List.forall_mem_singleton.2 hnull)
  have hlinks : Spells 255 (wideHead 4 2 1 ++ (strangeLink l).1) (.array [(strangeLink l).2]) := by
    have hone : 1 < BigEndian.range (2 ^ 2) := by decide
    have hspells : Spells 255 (wideHead 4 2 1 ++ [strangeLink l].flatMap Prod.fst)
        (.array [(strangeLink l).2]) :=
      .array (announces_wideHead 4 (by decide) hone)
        (List.forall_mem_singleton.2 (spells_strangeLink h 253))
    rwa [List.flatMap_singleton] at hspells
  refine .mapUntilEnd ?_ ?_
  · simp only [strangeEntries, List.forall_mem_cons]
    exact ⟨hseven, hname, hname, List.forall_mem_nil _⟩
  · simp only [strangeEntries, List.forall_mem_cons]
    exact ⟨hnulls, hlinks, .null, List.forall_mem_nil _⟩

lemma alike_strange (l : Link) : Alike (Chunk.mk none [l]).canonical.item (strangeItem l) := by
  set fields := l.allEntries.map fun e => (Item.text e.1, e.2.item)
  set links := fun entries => (Item.text "links", Item.array [.map entries])
  set seven := (Item.integer (7 : Nat), Item.array [.null])
  have hcanonical : (Chunk.mk none [l]).canonical.item =
      .map [links (itemEntries l.allEntries)] := by
    change Item.map [(.text "links", .array [l.canonical.item])] = _
    rw [Link.canonical_eq, Canonical.item_map]
    rfl
  have hstrange : strangeItem l = .map [seven, links (fields ++ [(.text "prev", .bool true)]),
      (.text "links", .null)] := by
    simp [strangeItem, strangeEntries, strangeLink, strangeFields, seven, links, fields]
  have link {entries others : List (Item × Item)}
      (h : Cbor.Unnoticed Link.wireNames entries others) :
      Alike (.map [links entries]) (.map [links others]) := .rel _ _ (.link [] [] [] [] h)
  have hpermuted : Cbor.Unnoticed Link.wireNames (itemEntries l.allEntries) fields := by
    have hperm : (itemEntries l.allEntries).Perm fields := (sortBy_perm entryKey l.allEntries).map _
    have hdistinct : (fields.map Prod.fst).Nodup := by
      have htexts := l.allEntries_distinct.map fun s t => Item.text.inj
      rw [List.map_map] at htexts ⊢
      exact htexts
    have h : Cbor.Unnoticed Link.wireNames ([] ++ itemEntries l.allEntries ++ [])
        ([] ++ fields ++ []) :=
      .permuted [] [] hperm ((hperm.map Prod.fst).nodup_iff.2 hdistinct)
    rwa [List.append_nil, List.append_nil] at h
  have hadded : Cbor.Unnoticed Link.wireNames fields (fields ++ [(.text "prev", .bool true)]) := by
    have hprev : ∀ n ∈ Link.wireNames, Item.text "prev" ≠ .text n := by simp [Link.wireNames]
    have h := Cbor.Unnoticed.added fields [] hprev (.bool true)
    rwa [List.append_nil] at h
  have hseven : ∀ n ∈ wireNames, Item.integer (7 : Nat) ≠ .text n := by simp
  rw [hcanonical, hstrange]
  refine ((link hpermuted).trans _ _ _ (link hadded)).trans _ _ _ ?_
  refine .trans _ _ _ (.rel _ _ (.chunk (.added [] _ hseven (.array [.null])))) ?_
  exact .rel _ _ (.chunk (.repeated [seven] [] [] "links" _ .null))

end Strange

def plainLink : Link := ⟨LinkBody.plainSample, ⟨.replicate 65 0⟩⟩

def plainChunk : Chunk := ⟨none, [plainLink]⟩

lemma plainChunk_fits : plainChunk.Fits :=
  ⟨by decide, List.forall_mem_singleton.2 LinkBody.plainSample_fits⟩

/-- Also where decoding fails: a number among its entries does not make up for missing links. -/
theorem strange_decoded :
    decode (strangeBytes plainLink ++ [0]) = .ok plainChunk ∧
      decode (plainChunk.bytes ++ []) = decode (strangeBytes plainLink ++ []) ∧
      ofItem (.map []) = .error (.malformedChunk .links) ∧
      ofItem (.map [(.integer 7, .null)]) = ofItem (.map []) := by
  have h := decode_extensible
  have hspells : Spells nestingLimit plainChunk.bytes plainChunk.canonical.item :=
    (h.2.2 plainChunk).1 plainChunk_fits
  have halike : Alike plainChunk.canonical.item (strangeItem plainLink) := alike_strange plainLink
  have hstrange := spells_strange (l := plainLink) LinkBody.plainSample_fits
  have hadded : Alike (.map []) (.map [(.integer 7, .null)]) :=
    .rel _ _ (.chunk (.added [] [] (by simp) .null))
  exact ⟨(h.2.2 plainChunk).2 _ halike _ hstrange [0],
    h.2.1 _ _ halike _ _ hspells hstrange [] [], rfl, (h.1 _ _ hadded).symm⟩

end Chunk
end SignedNames
