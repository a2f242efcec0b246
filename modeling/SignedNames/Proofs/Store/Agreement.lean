import Mathlib
import SignedNames.Proofs.Store.Records
import SignedNames.Proofs.Store.Rows

/-!
# Stores in memory and stores of rows

A store of rows mirrors a store in memory if it holds the same records as text. Both reply alike to
every request that stores nothing a row could not give back, and then mirror each other again.
-/
namespace SignedNames

namespace Table

variable {κ α : Type} [DecidableEq κ]

theorem mem_entries_iff {t : Table κ α} {key : κ} {value : α} :
    (key, value) ∈ t.entries ↔ t.get? key = some value := by
  rw [get?, Option.map_eq_some_iff]
  constructor
  · intro h
    cases hfind : t.entries.find? fun e => decide (e.1 = key) with
    | none =>
      have hnone := List.find?_eq_none.1 hfind _ h
      exact absurd (decide_eq_true rfl) hnone
    | some e =>
      have hkey : e.1 = key := of_decide_eq_true (List.find?_some hfind :)
      have he := List.inj_on_of_nodup_map t.distinct (List.mem_of_find?_eq_some hfind) h hkey
      exact ⟨e, rfl, congrArg Prod.snd he⟩
  · rintro ⟨e, hfind, rfl⟩
    have hkey : e.1 = key := of_decide_eq_true (List.find?_some hfind :)
    rw [← hkey]
    exact List.mem_of_find?_eq_some hfind

lemma mem_keys_filterMap {ι : Type} [DecidableEq ι] {t : Table (ι × String) α} {i : ι}
    {k : String} :
    k ∈ (t.entries.filterMap fun e => if e.1.1 = i then some (e.1.2, ()) else none).map (·.1) ↔
      (t.get? (i, k)).isSome := by
  simp only [List.mem_map, List.mem_filterMap, Option.isSome_iff_exists, ← mem_entries_iff]
  constructor
  · rintro ⟨_, ⟨⟨⟨j, k'⟩, value⟩, he, hif⟩, rfl⟩
    split at hif
    · rename_i hj
      cases hif
      exact ⟨value, hj ▸ he⟩
    · cases hif
  · rintro ⟨value, he⟩
    exact ⟨(k, ()), ⟨_, he, if_pos rfl⟩, rfl⟩

end Table

/-- A request that stores nothing a row could not give back. -/
def Request.FitsRows : Request → Prop
  | .swapIndex _ _ _ next => next.Normal
  | .swapProfile _ expected next => expected.getD 0 < revisionLimit ∧ next.Storable
  | _ => True

/-- The rows hold the records of the store in memory as text. -/
structure Mirrors (m : Memory) (r : Rows) : Prop where
  contents : r.Represents m.contents
  profile : ∀ owner : Address,
    r.profiles.get? owner.text = (m.profiles.get? owner).map Versioned.row
  storable : ∀ owner record, m.profiles.get? owner = some record → record.value.Storable
  layouts : r.layouts = [(Rows.supportedLayout : Int)]

namespace Mirrors

variable {m : Memory} {r : Rows}

theorem fresh : Mirrors .empty .fresh :=
  ⟨Rows.represents_fresh, fun _ => rfl, nofun, rfl⟩

theorem reopen (h : Mirrors m r) : r.reopen = .ok r := by
  have hnewest : r.newestLayout = Rows.supportedLayout := by
    rw [Rows.newestLayout, h.layouts]
    rfl
  rw [Rows.reopen, hnewest, if_neg (by decide), if_neg (by decide)]

theorem namespaces (h : Mirrors m r) (owner : Address) :
    r.namespaces owner = m.namespaces owner := by
  refine NameMap.keys_ofList_congr fun key => ?_
  have hindex := h.contents.index owner key
  rw [Table.mem_keys_filterMap, Table.mem_keys_filterMap, hindex, Option.isSome_map]
  rfl

lemma records (h : Mirrors m r) : r.HoldsRecords m.profiles.get? := ⟨h.profile, h.storable⟩

theorem readProfile (h : Mirrors m r) (owner : Address) :
    r.readProfile owner = .ok (m.profiles.get? owner) := h.records.readProfile owner

theorem swapProfile (h : Mirrors m r) (owner : Address) {expected : Option Nat} {next : Profile}
    (hexpected : expected.getD 0 < revisionLimit) (hnext : next.Storable) :
    (r.swapProfile owner expected next).1 = .ok (m.swapProfile owner expected next).1 ∧
      Mirrors (m.swapProfile owner expected next).2 (r.swapProfile owner expected next).2 := by
  rw [h.records.swapProfile owner hexpected, Memory.swapProfile]
  by_cases hcurrent : (m.profiles.get? owner).map (·.revision) = expected
  · rw [if_pos hcurrent, if_pos hcurrent]
    obtain ⟨hrow, hstorable⟩ :=
      h.records.set owner ⟨next, Memory.nextRevision expected⟩ hnext
    rw [← Table.get?_set_eq_update] at hrow hstorable
    exact ⟨rfl, ⟨h.contents.blob, h.contents.index, h.contents.normal⟩, hrow, hstorable, h.layouts⟩
  · rw [if_neg hcurrent, if_neg hcurrent]
    exact ⟨rfl, h⟩

lemma of_represents (h : Mirrors m r) {request : Request} (hspares : request.SparesProfiles)
    (hcontents : (Rows.backend request r).2.Represents (Memory.backend request m).2.contents) :
    Mirrors (Memory.backend request m).2 (Rows.backend request r).2 := by
  have hprofiles := Memory.profiles_backend hspares m
  obtain ⟨hrows, hlayouts⟩ := Rows.profiles_backend hspares r
  refine ⟨hcontents, ?_, ?_, hlayouts.trans h.layouts⟩
  · rw [hrows, hprofiles]
    exact h.profile
  · rw [hprofiles]
    exact h.storable

/-- Both stores reply alike, and hold the same records again. -/
theorem backend (h : Mirrors m r) {request : Request} (hfits : request.FitsRows) :
    (Rows.backend request r).1 = (Memory.backend request m).1 ∧
      Mirrors (Memory.backend request m).2 (Rows.backend request r).2 := by
  cases request with
  | put bs =>
    obtain ⟨hmemory, hcontents⟩ := Memory.backend_keeps.put rfl bs
    obtain ⟨hrows, hput⟩ := Rows.backend_keeps.put h.contents bs
    exact ⟨hrows.trans hmemory.symm, h.of_represents trivial (hcontents ▸ hput)⟩
  | get cid =>
    rw [Rows.backend_keeps.get h.contents, Memory.backend_keeps.get rfl]
    exact ⟨rfl, h⟩
  | has cid =>
    have hblob : r.blobs.get? cid.text = m.blobs.get? cid := h.contents.blob cid
    exact ⟨congrArg (fun found : Option Bytes => Except.ok found.isSome) hblob, h⟩
  | loadIndex owner namespaceName =>
    rw [Rows.backend_keeps.loadIndex h.contents, Memory.backend_keeps.loadIndex rfl]
    exact ⟨rfl, h⟩
  | swapIndex owner namespaceName expected next =>
    obtain ⟨outcome, k, hswap⟩ : ∃ outcome k, m.contents.swap (owner, Text.lower namespaceName)
        expected next = (outcome, k) := ⟨_, _, rfl⟩
    obtain ⟨hmemory, hcontents⟩ := Memory.backend_keeps.swapIndex rfl _ _ _ hfits hswap
    obtain ⟨hrows, hk⟩ := Rows.backend_keeps.swapIndex h.contents _ _ _ hfits hswap
    exact ⟨hrows.trans hmemory.symm, h.of_represents trivial (hcontents ▸ hk)⟩
  | listNamespaces owner => exact ⟨congrArg Except.ok (h.namespaces owner), h⟩
  | loadProfile owner => exact ⟨h.readProfile owner, h⟩
  | swapProfile owner expected next => exact h.swapProfile owner hfits.1 hfits.2

end Mirrors

/-- The limit cannot be moved: a store in memory goes on from that revision, rows do not. -/
theorem swapProfile_at_limit {m : Memory} {owner : Address}
    (h : (m.profiles.get? owner).map (·.revision) = some revisionLimit) (r : Rows)
    (next : Profile) :
    (m.swapProfile owner (some revisionLimit) next).1 = .swapped ∧
      (r.swapProfile owner (some revisionLimit) next).1 =
        .error (.invalidData (.outOfRange (revisionLimit + 1))) := by
  have hwanted : (some revisionLimit).mapM Rows.storable = .ok (some (revisionLimit : Int)) := rfl
  have hsuccessor : Rows.storable (revisionLimit + 1) =
      .error (.invalidData (.outOfRange (revisionLimit + 1))) := rfl
  refine ⟨?_, ?_⟩
  · simp only [Memory.swapProfile, if_pos h]
  · simp only [Rows.swapProfile, hwanted, Option.getD_some, hsuccessor]

end SignedNames
