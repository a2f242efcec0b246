import Mathlib
import SignedNames.Proofs.AddressText
import SignedNames.Proofs.IndexDocument
import SignedNames.Store.Rows

/-!
# What a store of rows holds

Identifiers, owners and documents are read back from their text, so the rows hold the same contents
as a store in memory would.
-/
namespace SignedNames

def NameIndex.row (i : NameIndex) : IndexRow := ⟨i.head.text, i.document⟩

namespace Rows

structure Represents (r : Rows) (k : Contents) : Prop where
  blob : ∀ cid : Cid, r.blobs.get? cid.text = k.blob? cid
  index : ∀ (owner : Address) (key : String),
    r.indexes.get? (owner.text, key) = (k.index? (owner, key)).map NameIndex.row
  normal : ∀ key i, k.index? key = some i → i.Normal

theorem represents_fresh : Represents fresh .empty := ⟨fun _ => rfl, fun _ _ => rfl, nofun⟩

variable {r : Rows} {k : Contents}

theorem readIndex_eq (h : r.Represents k) (owner : Address) (namespaceName : String) :
    r.readIndex owner namespaceName = .ok (k.index? (owner, Text.lower namespaceName)) := by
  rw [readIndex, indexKey, h.index]
  cases hi : k.index? (owner, Text.lower namespaceName) with
  | none => rfl
  | some i =>
    have hparse := NameIndex.parse_document (h.normal _ i hi)
    simp only [Option.map_some, NameIndex.row, hparse]
    rfl

lemma get?_setIfMissing (h : r.Represents k) (bs : Bytes) (cid : Cid) :
    (r.blobs.setIfMissing (Cid.ofBytes bs).text bs).get? cid.text = (k.put bs).blob? cid := by
  have hkey : (Cid.ofBytes bs).text = cid.text ↔ Cid.ofBytes bs = cid := Cid.text_injective.eq_iff
  have hold := h.blob cid
  rw [Table.setIfMissing, h.blob]
  by_cases hcid : Cid.ofBytes bs = cid
  · subst hcid
    rw [Contents.blob?_put_self]
    cases hblob : k.blob? (Cid.ofBytes bs) with
    | none => simp [Table.get?_set]
    | some old => simpa [hblob] using hold
  · have hput : (k.put bs).blob? cid = k.blob? cid := if_neg hcid
    rw [hput]
    cases k.blob? (Cid.ofBytes bs) with
    | none => simpa [Table.get?_set, hkey, hcid] using hold
    | some old => exact hold

theorem represents_put (h : r.Represents k) (bs : Bytes) :
    Represents { r with blobs := r.blobs.setIfMissing (Cid.ofBytes bs).text bs } (k.put bs) :=
  ⟨get?_setIfMissing h bs, h.index, h.normal⟩

theorem represents_setIndex (h : r.Represents k) (owner : Address) (key : String) {i : NameIndex}
    (hi : i.Normal) :
    Represents { r with indexes := r.indexes.set (owner.text, key) i.row }
      (k.setIndex (owner, key) i) := by
  refine ⟨h.blob, ?_, ?_⟩
  · intro other key'
    have hkey : (owner.text, key) = (other.text, key') ↔ (owner, key) = (other, key') := by
      rw [Prod.mk.injEq, Prod.mk.injEq, Address.text_injective.eq_iff]
    rw [Table.get?_set, Contents.setIndex]
    simp only [hkey, h.index]
    split <;> rfl
  · intro other j hj
    simp only [Contents.setIndex] at hj
    split at hj
    · cases hj
      exact hi
    · exact h.normal _ j hj

lemma map_head_eq_iff (h : r.Represents k) (owner : Address) (namespaceName : String)
    (expected : Option Cid) :
    (r.indexes.get? (indexKey owner namespaceName)).map (·.head) = expected.map (·.text) ↔
      (k.index? (owner, Text.lower namespaceName)).map (·.head) = expected := by
  have hhead : (r.indexes.get? (indexKey owner namespaceName)).map (·.head) =
      ((k.index? (owner, Text.lower namespaceName)).map (·.head)).map Cid.text := by
    rw [indexKey, h.index, Option.map_map, Option.map_map]
    rfl
  rw [hhead]
  exact (Option.map_injective Cid.text_injective).eq_iff

theorem backend_keeps : Backend.Keeps backend Represents where
  put h bs := ⟨rfl, represents_put h bs⟩
  get {r k} h cid := by
    simp only [backend, Contents.get, h.blob]
    cases k.blob? cid <;> rfl
  loadIndex {r k} h owner namespaceName := by
    rw [backend, readIndex_eq h]
  swapIndex {r k} h owner namespaceName expected next hnext outcome k' hswap := by
    have hiff := map_head_eq_iff h owner namespaceName expected
    rw [Contents.swap] at hswap
    rw [backend, swapIndex]
    by_cases hhead : (k.index? (owner, Text.lower namespaceName)).map (·.head) = expected
    · rw [if_pos hhead] at hswap
      cases hswap
      rw [if_pos (hiff.2 hhead)]
      exact ⟨rfl, represents_setIndex h owner _ hnext⟩
    · rw [if_neg hhead] at hswap
      cases hswap
      rw [if_neg (mt hiff.1 hhead), readIndex_eq h]
      exact ⟨rfl, h⟩
  quiet {r k} h request hquiet := by
    cases request with
    | put => exact hquiet.elim
    | swapIndex => exact hquiet.elim
    | get cid =>
      simp only [backend]
      split <;> exact h
    | swapProfile owner expected next =>
      simp only [backend, swapProfile]
      split
      · exact h
      · exact h
      · split
        · exact ⟨h.blob, h.index, h.normal⟩
        · exact h
    | _ => exact h

end Rows
end SignedNames
