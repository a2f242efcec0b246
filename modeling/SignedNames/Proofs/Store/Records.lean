import Mathlib
import SignedNames.Proofs.AddressText
import SignedNames.Proofs.ProfileDocument
import SignedNames.Proofs.ProfileEdits
import SignedNames.Store.Rows

/-!
# The profiles that a store holds

The records of profiles by owner, without regard to how they are kept, and what a swap does to them.
Rows only take profiles that can be read back, and no revision above a limit.
-/
namespace SignedNames

lemma Table.get?_set_eq_update {κ α : Type} [DecidableEq κ] (t : Table κ α) (key : κ) (value : α) :
    (t.set key value).get? = Function.update t.get? key (some value) := by
  funext other
  rw [get?_set, Function.update_apply]
  simp only [eq_comm]

abbrev Records : Type := Address → Option (Versioned Profile)

/-- What a swap may do to some records: it lands if the expected revision is in place, or leaves
everything as it is. -/
inductive Swaps (records : Records) (owner : Address) (expected : Option Nat) (next : Profile) :
    Except StoreError (Swap (Versioned Profile)) → Records → Prop
  | landed (hit : (records owner).map (·.revision) = expected) :
    Swaps records owner expected next (.ok .swapped)
      (Function.update records owner (some ⟨next, expected.getD 0 + 1⟩))
  | lost (current : Option (Versioned Profile)) :
    Swaps records owner expected next (.ok (.conflict current)) records
  | failed (e : StoreError) : Swaps records owner expected next (.error e) records

/-- A store whose states stand for records, as a relation says, and that answers accordingly as long
as it is only given profiles that it admits. -/
structure Backend.KeepsRecords {σ : Type} (b : Backend σ) (rep : σ → Records → Prop)
    (admits : Profile → Prop) : Prop where
  load : ∀ {s records}, rep s records → ∀ owner,
    b (.loadProfile owner) s = (.ok (records owner), s)
  swap : ∀ {s records}, rep s records → ∀ owner expected {next : Profile}, admits next →
    ∃ records',
      Swaps records owner expected next (b (.swapProfile owner expected next) s).1 records' ∧
        rep (b (.swapProfile owner expected next) s).2 records'
  spares : ∀ {s records}, rep s records → ∀ {r : Request}, r.SparesProfiles → rep (b r s).2 records
  admits_empty : admits .empty
  admits_setHead : ∀ {q : Profile}, admits q → ∀ namespaceName head,
    admits (q.setHead namespaceName head)

lemma Backend.KeepsRecords.admits_withHead {σ : Type} {b : Backend σ} {rep : σ → Records → Prop}
    {admits : Profile → Prop} (keeps : b.KeepsRecords rep admits) {q : Profile} (h : admits q)
    (namespaceName : Option String) (found : Option NameIndex) :
    admits (q.withHead namespaceName found) := by
  cases namespaceName with
  | none => exact h
  | some name =>
    cases found with
    | none => exact h
    | some i => exact keeps.admits_setHead h name i.head

namespace Memory

theorem keepsRecords :
    Backend.KeepsRecords backend (fun m records => m.profiles.get? = records) fun _ => True where
  load := by
    rintro m _ rfl owner
    rfl
  swap := by
    rintro m _ rfl owner expected next -
    by_cases hit : (m.profiles.get? owner).map (·.revision) = expected
    · refine ⟨_, ?_, rfl⟩
      simp only [backend, swapProfile, if_pos hit, Table.get?_set_eq_update]
      exact .landed hit
    · refine ⟨_, ?_, rfl⟩
      simp only [backend, swapProfile, if_neg hit]
      exact .lost _
  spares := by
    rintro m _ rfl r spares
    rw [profiles_backend spares]
  admits_empty := trivial
  admits_setHead _ _ _ := trivial

end Memory

/-- No revision that is swapped may have got so far; the next one would be no number of 64 bits with
a sign. -/
def revisionLimit : Nat := 2 ^ 63 - 1

def Versioned.row (record : Versioned Profile) : ProfileRow :=
  ⟨record.revision, record.value.document⟩

namespace Rows

lemma profiles_backend {request : Request} (h : request.SparesProfiles) (r : Rows) :
    (backend request r).2.profiles = r.profiles ∧ (backend request r).2.layouts = r.layouts := by
  cases request with
  | swapProfile => exact h.elim
  | get cid =>
    simp only [backend]
    split <;> exact ⟨rfl, rfl⟩
  | swapIndex owner namespaceName expected next =>
    simp only [backend, swapIndex]
    split <;> exact ⟨rfl, rfl⟩
  | _ => exact ⟨rfl, rfl⟩

lemma storable_eq_ok {revision : Nat} (h : revision < 2 ^ 63) :
    storable revision = .ok (revision : Int) := if_pos h

structure HoldsRecords (r : Rows) (records : Records) : Prop where
  row : ∀ owner : Address, r.profiles.get? owner.text = (records owner).map Versioned.row
  storable : ∀ owner record, records owner = some record → record.value.Storable

namespace HoldsRecords

variable {r : Rows} {records : Records}

theorem fresh : HoldsRecords .fresh fun _ => none := ⟨fun _ => rfl, nofun⟩

theorem readProfile (h : r.HoldsRecords records) (owner : Address) :
    r.readProfile owner = .ok (records owner) := by
  rw [Rows.readProfile, h.row]
  cases hrecord : records owner with
  | none => rfl
  | some record =>
    have hnonneg : ¬ ((record.revision : Int) < 0) := by omega
    have hparse := Profile.parse_document (h.storable owner record hrecord)
    simp only [Option.map_some, Versioned.row, if_neg hnonneg, hparse]
    rfl

lemma map_revision_eq_iff (h : r.HoldsRecords records) (owner : Address) (expected : Option Nat) :
    (r.profiles.get? owner.text).map (·.revision) = expected.map Nat.cast ↔
      (records owner).map (·.revision) = expected := by
  have hrevision : (r.profiles.get? owner.text).map (·.revision) =
      ((records owner).map (·.revision)).map Nat.cast := by
    rw [h.row, Option.map_map, Option.map_map]
    rfl
  rw [hrevision]
  exact (Option.map_injective Nat.cast_injective).eq_iff

theorem set (h : r.HoldsRecords records) (owner : Address) (record : Versioned Profile)
    (hrecord : record.value.Storable) :
    HoldsRecords { r with profiles := r.profiles.set owner.text record.row }
      (Function.update records owner (some record)) where
  row other := by
    rw [Table.get?_set, Function.update_apply, h.row]
    simp only [Address.text_injective.eq_iff, eq_comm]
    split <;> rfl
  storable other found hfound := by
    rw [Function.update_apply] at hfound
    split at hfound
    · cases hfound
      exact hrecord
    · exact h.storable other found hfound

/-- Below the limit, a swap is decided by the revision alone. -/
theorem swapProfile (h : r.HoldsRecords records) (owner : Address) {expected : Option Nat}
    (hexpected : expected.getD 0 < revisionLimit) (next : Profile) :
    r.swapProfile owner expected next =
      if (records owner).map (·.revision) = expected then
        (.ok .swapped, { r with
          profiles := r.profiles.set owner.text (Versioned.row ⟨next, expected.getD 0 + 1⟩) })
      else (.ok (.conflict (records owner)), r) := by
  have hwanted : expected.mapM Rows.storable = .ok (expected.map Nat.cast) := by
    cases expected with
    | none => rfl
    | some revision =>
      have hrevision : Rows.storable revision = .ok (revision : Int) :=
        storable_eq_ok (Nat.lt_of_lt_pred hexpected)
      rw [Option.mapM_some, hrevision]
      rfl
  have hsuccessor : Rows.storable (expected.getD 0 + 1) = .ok ((expected.getD 0 + 1 : Nat) : Int) :=
    storable_eq_ok (Nat.succ_lt_of_lt_pred hexpected)
  simp only [Rows.swapProfile, hwanted, hsuccessor, h.map_revision_eq_iff, h.readProfile]
  rfl

end HoldsRecords

/-- From the limit on, every swap fails. -/
lemma swapProfile_of_limit {expected : Option Nat} (h : revisionLimit ≤ expected.getD 0) (r : Rows)
    (owner : Address) (next : Profile) :
    ∃ e, r.swapProfile owner expected next = (.error e, r) := by
  have hsuccessor : ∃ e, storable (expected.getD 0 + 1) = .error e := by
    refine ⟨_, if_neg ?_⟩
    rw [revisionLimit] at h
    omega
  obtain ⟨e, he⟩ := hsuccessor
  rw [swapProfile, he]
  cases expected.mapM storable with
  | error e' => exact ⟨e', rfl⟩
  | ok wanted => exact ⟨e, rfl⟩

theorem keepsRecords : Backend.KeepsRecords backend HoldsRecords Profile.Storable where
  load h owner := by rw [backend, h.readProfile]
  swap {r records} h owner expected next hnext := by
    rw [backend]
    by_cases hlimit : expected.getD 0 < revisionLimit
    · rw [h.swapProfile owner hlimit]
      by_cases hit : (records owner).map (·.revision) = expected
      · rw [if_pos hit]
        exact ⟨_, .landed hit, h.set owner ⟨next, _⟩ hnext⟩
      · rw [if_neg hit]
        exact ⟨_, .lost _, h⟩
    · obtain ⟨e, he⟩ := r.swapProfile_of_limit (Nat.le_of_not_lt hlimit) owner next
      rw [he]
      exact ⟨_, .failed e, h⟩
  spares {r records} h request hspares := by
    have hprofiles := (profiles_backend hspares r).1
    exact ⟨fun owner => hprofiles ▸ h.row owner, h.storable⟩
  admits_empty := Profile.storable_empty
  admits_setHead h _ _ := h.setHead _ _

end Rows
end SignedNames
