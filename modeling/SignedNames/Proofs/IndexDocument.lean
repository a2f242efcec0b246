import Mathlib
import SignedNames.NameIndex
import SignedNames.Proofs.CidText
import SignedNames.Proofs.Json.Records
import SignedNames.Proofs.Store.Contents
import SignedNames.Proofs.Text.LowerCase

/-!
# Documents of indexes

An index is read back from its document with its names in lower case.
-/
namespace SignedNames

lemma NameMap.forall_mapKeys_lower {α : Type} (m : NameMap α) :
    ∀ e ∈ (m.mapKeys Text.lower).entries, Text.lower e.1 = e.1 := by
  intro e he
  obtain ⟨e', -, rfl⟩ := List.mem_map.1 (NameMap.mem_of_mem_ofList he)
  exact Text.lower_lower e'.1

namespace Json.Reader

@[simp] theorem cid_text (c : Cid) : Reader.cid (.text c.text) = .ok c := by
  rw [Reader.cid, parsed]
  simp only [text, Cid.parse_text]
  rfl

end Json.Reader

namespace NameIndex
open Json

lemma value_within (i : NameIndex) : i.value.Within nestingLimit := by
  refine .object fun m hm => ?_
  rcases List.mem_pair.1 hm with rfl | rfl
  · exact .text ..
  · refine .object fun e he => ?_
    obtain ⟨e, -, rfl⟩ := List.mem_map.1 he
    exact .text ..

def entriesTree (i : NameIndex) : Tree :=
  (Value.object (i.entries.entries.map fun e => (e.1, .text e.2.text))).tree

lemma tree_value (i : NameIndex) : i.value.tree =
    .object [(some "head", .text i.head.text), (some "entries", i.entriesTree)] true := by
  simp only [value, Value.tree, Value.memberTrees, entriesTree]

lemma read_entriesTree (i : NameIndex) :
    Reader.nameMap Reader.cid i.entriesTree = .ok i.entries :=
  Reader.nameMap_eq (fun c => .text c.text) fun e _ => Reader.cid_text e.2

lemma read_record (i : NameIndex) : Record.read fields i.value.tree =
    .ok ⟨[("head", .text i.head.text), ("entries", i.entriesTree)], [], false⟩ := by
  have hhead : Reader.cid.check (.text i.head.text) = .ok () := by
    rw [Reader.check, Reader.cid_text]
    rfl
  have hentries : (Reader.nameMap Reader.cid).check i.entriesTree = .ok () := by
    rw [Reader.check, read_entriesTree]
    rfl
  rw [tree_value]
  simp [Record.read, Record.ofMembers, Record.checkMembers, fields, Field.of, Field.Names, hhead,
    hentries]
  rfl

def normalized (i : NameIndex) : NameIndex := ⟨i.head, i.entries.mapKeys Text.lower⟩

lemma normalized_normal (i : NameIndex) : i.normalized.Normal :=
  NameMap.forall_mapKeys_lower i.entries

theorem normalized_eq_self_iff {i : NameIndex} : i.normalized = i ↔ i.Normal := by
  refine ⟨fun h => h ▸ i.normalized_normal, fun h => ?_⟩
  rw [normalized, NameMap.mapKeys_eq_self h]

lemma read_tree (i : NameIndex) : NameIndex.read i.value.tree = .ok i.normalized := by
  rw [NameIndex.read, read_record]
  change (Reader.cid (.text i.head.text) >>= fun head =>
    Reader.nameMap Reader.cid i.entriesTree >>= fun entries =>
      pure (⟨head, entries.mapKeys Text.lower⟩ : NameIndex)) = _
  rw [Reader.cid_text, read_entriesTree]
  rfl

theorem parse_document_normalized (i : NameIndex) :
    NameIndex.parse i.document = .ok i.normalized := by
  rw [NameIndex.parse, document, Json.parse, scan_render i.value_within]
  simp only [read_tree]
  rfl

theorem parse_document {i : NameIndex} (h : i.Normal) : NameIndex.parse i.document = .ok i := by
  rw [parse_document_normalized, normalized_eq_self_iff.2 h]

theorem normal_of_parse {s : String} {i : NameIndex} (h : NameIndex.parse s = .ok i) : i.Normal := by
  have hread := read_of_parse (exists_of_mapError_eq_ok h)
  obtain ⟨r, -, hread⟩ := exists_of_bind_eq_ok hread
  obtain ⟨head, -, hread⟩ := exists_of_bind_eq_ok hread
  obtain ⟨entries, -, hread⟩ := exists_of_bind_eq_ok hread
  cases hread
  exact NameMap.forall_mapKeys_lower entries

end NameIndex
end SignedNames
