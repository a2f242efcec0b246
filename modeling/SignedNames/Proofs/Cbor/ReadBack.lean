import Mathlib
import SignedNames.Proofs.Cbor.WellFormed

/-!
# Reading canonical bytes

The bytes of a canonical value are the bytes of one item. The item is read from the front of any
byte string that starts with them, and leaves the rest as it is.
-/
namespace SignedNames.Cbor

section Sorting
variable {α β : Type}

def insertBy (key : α → Bytes) (a : α) : List α → List α
  | [] => [a]
  | b :: rest => if key a < key b then a :: b :: rest else b :: insertBy key a rest

def sortBy (key : α → Bytes) (things : List α) : List α :=
  things.foldl (fun sorted a => insertBy key a sorted) []

lemma insertBy_map (key : β → Bytes) (f : α → β) (a : α) (things : List α) :
    insertBy key (f a) (things.map f) = (insertBy (key ∘ f) a things).map f := by
  induction things with
  | nil => rfl
  | cons b rest ih =>
    simp only [List.map_cons, insertBy, Function.comp_apply]
    split_ifs
    · rfl
    · rw [ih, List.map_cons]

theorem sortBy_map (key : β → Bytes) (f : α → β) (things : List α) :
    sortBy key (things.map f) = (sortBy (key ∘ f) things).map f := by
  have fold (sorted : List α) :
      (things.map f).foldl (fun sorted b => insertBy key b sorted) (sorted.map f) =
        (things.foldl (fun sorted a => insertBy (key ∘ f) a sorted) sorted).map f := by
    induction things generalizing sorted with
    | nil => rfl
    | cons a rest ih => simp only [List.map_cons, List.foldl_cons, insertBy_map, ih]
  exact fold []

lemma insertBy_perm (key : α → Bytes) (a : α) (things : List α) :
    (insertBy key a things).Perm (a :: things) := by
  induction things with
  | nil => rfl
  | cons b rest ih =>
    simp only [insertBy]
    split_ifs
    · rfl
    · exact (ih.cons b).trans (List.Perm.swap a b rest)

theorem sortBy_perm (key : α → Bytes) (things : List α) : (sortBy key things).Perm things := by
  have fold (sorted : List α) :
      (things.foldl (fun sorted a => insertBy key a sorted) sorted).Perm (things ++ sorted) := by
    induction things generalizing sorted with
    | nil => rfl
    | cons a rest ih =>
      refine (ih _).trans (((insertBy_perm key a sorted).append_left rest).trans ?_)
      exact List.perm_middle
  simpa [sortBy] using fold []

lemma pairwise_insertBy (key : α → Bytes) (a : α) {things : List α}
    (h : things.Pairwise fun a b => key a ≤ key b) :
    (insertBy key a things).Pairwise fun a b => key a ≤ key b := by
  induction things with
  | nil => exact List.pairwise_singleton ..
  | cons b rest ih =>
    rw [List.pairwise_cons] at h
    rw [insertBy]
    split_ifs with hab
    · refine List.pairwise_cons.2 ⟨?_, List.pairwise_cons.2 h⟩
      rw [List.forall_mem_cons]
      exact ⟨Std.le_of_lt hab, fun c hc => Std.le_trans (Std.le_of_lt hab) (h.1 c hc)⟩
    · refine List.pairwise_cons.2 ⟨?_, ih h.2⟩
      intro c hc
      rcases List.mem_cons.1 ((insertBy_perm key a rest).mem_iff.1 hc) with rfl | hrest
      · exact Std.not_lt.1 hab
      · exact h.1 c hrest

theorem pairwise_sortBy (key : α → Bytes) (things : List α) :
    (sortBy key things).Pairwise fun a b => key a ≤ key b := by
  have fold (sorted : List α) (h : sorted.Pairwise fun a b => key a ≤ key b) :
      (things.foldl (fun sorted a => insertBy key a sorted) sorted).Pairwise
        fun a b => key a ≤ key b := by
    induction things generalizing sorted with
    | nil => exact h
    | cons a rest ih => exact ih _ (pairwise_insertBy key a h)
  exact fold [] .nil

variable {key : α → Bytes}

theorem ascending_sortBy {things : List α} (distinct : (things.map key).Nodup) :
    ((sortBy key things).map key).Pairwise (· < ·) := by
  have hnodup : ((sortBy key things).map key).Nodup :=
    ((sortBy_perm key things).map key).nodup_iff.2 distinct
  have hsorted := List.pairwise_map.2 (pairwise_sortBy key things)
  exact hsorted.imp₂ (fun _ _ hle hne => Std.lt_of_le_of_ne hle hne) hnodup

theorem sortBy_eq_of_perm {things others : List α} (h : things.Perm others)
    (distinct : (things.map key).Nodup) : sortBy key things = sortBy key others := by
  have hthings := sortBy_perm key things
  have hothers := sortBy_perm key others
  refine List.Perm.eq_of_pairwise ?_ (pairwise_sortBy key things) (pairwise_sortBy key others)
    (hthings.trans (h.trans hothers.symm))
  intro a b ha hb hab hba
  have hkey : key a = key b := Std.le_antisymm hab hba
  refine List.inj_on_of_nodup_map distinct (hthings.mem_iff.1 ha) ?_ hkey
  exact h.mem_iff.2 (hothers.mem_iff.1 hb)

end Sorting

lemma insertByKey_eq (e : EncodedEntry) (entries : List EncodedEntry) :
    insertByKey e entries = insertBy EncodedEntry.key e entries := by
  induction entries with
  | nil => rfl
  | cons f rest ih => simp only [insertByKey, insertBy, ih]

theorem sortByKey_eq (entries : List EncodedEntry) :
    sortByKey entries = sortBy EncodedEntry.key entries := by
  simp only [sortByKey, sortBy, insertByKey_eq]

def entryKey {α : Type} (e : String × α) : Bytes := textBytes e.1

namespace Canonical

mutual

/-- The item that the bytes of a value spell. -/
def item : Canonical → Item
  | .natural n => .integer n.toNat
  | .bytes bs => .bytes bs
  | .text s => .text s
  | .bool b => .bool b
  | .array items => .array (itemsOf items)
  | .map entries => .map ((sortBy entryKey (entriesOf entries)).map fun e => (.text e.1, e.2))

def itemsOf : List Canonical → List Item
  | [] => []
  | v :: rest => v.item :: itemsOf rest

def entriesOf : List (String × Canonical) → List (String × Item)
  | [] => []
  | (key, v) :: rest => (key, v.item) :: entriesOf rest

end

lemma itemsOf_eq (items : List Canonical) : itemsOf items = items.map item := by
  induction items with
  | nil => rfl
  | cons v rest ih => simp only [itemsOf, ih, List.map_cons]

lemma entriesOf_eq (entries : List (String × Canonical)) :
    entriesOf entries = entries.map fun e => (e.1, e.2.item) := by
  induction entries with
  | nil => rfl
  | cons e rest ih => simp only [entriesOf, ih, List.map_cons]

lemma encodeItems_eq (items : List Canonical) : encodeItems items = items.flatMap encode := by
  induction items with
  | nil => rfl
  | cons v rest ih => simp only [encodeItems, ih, List.flatMap_cons]

lemma encodeEntries_eq (entries : List (String × Canonical)) :
    encodeEntries entries = entries.map fun e => ⟨textBytes e.1, e.2.encode⟩ := by
  induction entries with
  | nil => rfl
  | cons e rest ih => simp only [encodeEntries, ih, List.map_cons]

lemma item_map (entries : List (String × Canonical)) :
    item (.map entries) = .map ((sortBy entryKey entries).map fun e => (.text e.1, e.2.item)) := by
  simp only [item, entriesOf_eq, sortBy_map, List.map_map]
  rfl

lemma encode_map (entries : List (String × Canonical)) :
    encode (.map entries) = headBytes 5 entries.length ++
      (sortBy entryKey entries).flatMap fun e => textBytes e.1 ++ e.2.encode := by
  simp only [encode, mapBytes, encodeEntries_eq, sortByKey_eq, sortBy_map, List.length_map,
    List.flatMap_map]
  rfl

/-- Values nested at most `depth` deep whose lengths are numbers of 64 bits. -/
inductive Encodable : (depth : Nat) → Canonical → Prop
  | natural {depth : Nat} (n : UInt64) : Encodable depth (.natural n)
  | bytes {depth : Nat} {bs : Bytes} (length : bs.length < UInt64.size) :
    Encodable depth (.bytes bs)
  | text {depth : Nat} {s : String} (length : (Text.utf8 s).length < UInt64.size) :
    Encodable depth (.text s)
  | bool {depth : Nat} (b : Bool) : Encodable depth (.bool b)
  | array {depth : Nat} {items : List Canonical} (length : items.length < UInt64.size)
      (items_encodable : ∀ v ∈ items, Encodable depth v) : Encodable (depth + 1) (.array items)
  | map {depth : Nat} {entries : List (String × Canonical)}
      (length : entries.length < UInt64.size)
      (keys : ∀ e ∈ entries, (Text.utf8 e.1).length < UInt64.size)
      (values : ∀ e ∈ entries, Encodable depth e.2) : Encodable (depth + 1) (.map entries)

end Canonical

lemma announces_headBytes (major : Nat) {n : Nat} (h : n < UInt64.size) :
    Announces major n (headBytes major n) := by
  obtain ⟨form, hspelled, -⟩ := spelled_headBytes major n
  rw [Nat.mod_eq_of_lt h] at hspelled
  exact ⟨form, hspelled⟩

theorem Canonical.Encodable.spells {depth : Nat} {v : Canonical} (h : v.Encodable depth) :
    Spells depth v.encode v.item := by
  induction h with
  | natural n => exact .natural (announces_headBytes 0 n.toNat_lt)
  | bytes length => exact .bytes (announces_headBytes 2 length)
  | text length => exact .text (announces_headBytes 3 length)
  | bool b =>
    cases b
    · exact .bool false
    · exact .bool true
  | @array depth items length _ ih =>
    have hlength : Announces 4 (items.map fun v => (v.encode, v.item)).length
        (headBytes 4 items.length) := by
      rw [List.length_map]
      exact announces_headBytes 4 length
    have hspells := Spells.array hlength (List.forall_mem_map.2 ih)
    rw [List.flatMap_map, List.map_map] at hspells
    rw [Canonical.encode, Canonical.encodeItems_eq, Canonical.item, Canonical.itemsOf_eq]
    exact hspells
  | @map depth entries length keys _ ih =>
    have hperm := sortBy_perm entryKey entries
    have hlength : Announces 5 ((sortBy entryKey entries).map fun e =>
        ((textBytes e.1, Item.text e.1), (e.2.encode, e.2.item))).length
          (headBytes 5 entries.length) := by
      rw [List.length_map, hperm.length_eq]
      exact announces_headBytes 5 length
    have hspells := Spells.map hlength
      (List.forall_mem_map.2 fun e he =>
        .text (announces_headBytes 3 (keys e (hperm.mem_iff.1 he))))
      (List.forall_mem_map.2 fun e he => ih e (hperm.mem_iff.1 he))
    rw [List.flatMap_map, List.map_map] at hspells
    rw [Canonical.encode_map, Canonical.item_map]
    exact hspells

theorem readWithin_encode {depth : Nat} {v : Canonical} (h : v.Encodable depth) (rest : Bytes) :
    Item.readWithin depth (v.encode ++ rest) = some (v.item, rest) :=
  h.spells.read rest

end SignedNames.Cbor
