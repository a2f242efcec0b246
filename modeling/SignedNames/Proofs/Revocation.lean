import Mathlib
import SignedNames.Proofs.IndexedChains
import SignedNames.Proofs.Store.Records

/-!
# Revocations that fail

A revocation edits the profile before it knows whether the key is there: the profile that it has
loaded is swapped in, changed or not, and an unknown key is reported afterwards. So a revocation
that fails this way has added a revision, and has given an owner without a profile an empty one.
-/
namespace SignedNames

namespace Publisher

theorem run_editProfileTimes_of_lands {σ β : Type} {b : Backend σ} {p : Publisher}
    {edit : Profile → Profile × β} {s : σ} {current : Option (Versioned Profile)}
    {after : Profile → σ} (hload : b (.loadProfile p.owner) s = (.ok current, s))
    (hswap : ∀ next, b (.swapProfile p.owner (current.map (·.revision)) next) s =
      (.ok .swapped, after next)) (attempts : Nat) :
    (p.editProfileTimes none edit (attempts + 1)).run b s =
      (.ok ⟨⟨(edit (profileOf current)).1, revisionOf current + 1⟩, (edit (profileOf current)).2,
        p.settings.maxAttempts - attempts⟩, after (edit (profileOf current)).1) := by
  have hrefresh : (p.refresh (profileOf current) none).run b s = (.ok (profileOf current), s) := rfl
  simp only [run_editProfileTimes_succ, hload, hrefresh, hswap]

lemma run_revokeKey {σ : Type} (b : Backend σ) (p : Publisher) (fingerprint : String)
    (time : UInt64) (s : σ) :
    (p.revokeKey fingerprint time).run b s =
      let edited := (p.editProfile none fun profile =>
        match profile.revoke? fingerprint time with
        | some revoked => (revoked, true)
        | none => (profile, false)).run b s
      (edited.1.bind fun found =>
        if found.answer then .ok () else .error (.misuse (.unknownFingerprint fingerprint)),
        edited.2) := by
  change ((p.revokeKey fingerprint time).program).run b s = _
  rw [revokeKey, Operation.program_bind, Program.run_bind]
  change Program.run b (Operation.after _ (Operation.run b _ s).1) (Operation.run b _ s).2 = _
  generalize Operation.run b (p.editProfile none _) s = edited
  obtain ⟨_ | found, s⟩ := edited
  · rfl
  · rw [Operation.after_ok]
    cases h : found.answer <;> simp only [Except.bind, h] <;> rfl

/-- Where the swap of the profile that was loaded lands, a revocation leaves a revision whether or
not it has found the key. -/
theorem run_revokeKey_of_lands {σ : Type} {b : Backend σ} {p : Publisher} {s : σ}
    {current : Option (Versioned Profile)} {after : Profile → σ}
    (hattempts : 0 < p.settings.maxAttempts)
    (hload : b (.loadProfile p.owner) s = (.ok current, s))
    (hswap : ∀ next, b (.swapProfile p.owner (current.map (·.revision)) next) s =
      (.ok .swapped, after next)) (fingerprint : String) (time : UInt64) :
    (p.revokeKey fingerprint time).run b s =
      match (profileOf current).revoke? fingerprint time with
      | some revoked => (.ok (), after revoked)
      | none =>
        (.error (.misuse (.unknownFingerprint fingerprint)), after (profileOf current)) := by
  obtain ⟨attempts, hmax⟩ := Nat.exists_eq_add_one_of_ne_zero hattempts.ne'
  rw [run_revokeKey, editProfile, hmax, run_editProfileTimes_of_lands hload hswap]
  cases (profileOf current).revoke? fingerprint time <;> rfl

lemma run_revokeKey_of_no_attempts {σ : Type} (b : Backend σ) {p : Publisher}
    (hattempts : p.settings.maxAttempts = 0) (fingerprint : String) (time : UInt64) (s : σ) :
    (p.revokeKey fingerprint time).run b s = (.error (.profileConflicts 0), s) := by
  rw [run_revokeKey, editProfile, hattempts]
  change (Except.error (OperationError.profileConflicts p.settings.maxAttempts), s) = _
  rw [hattempts]

theorem run_revokeKey_of_refused {σ : Type} {b : Backend σ} {p : Publisher} {s : σ}
    {current : Option (Versioned Profile)} (hattempts : 0 < p.settings.maxAttempts)
    (hload : b (.loadProfile p.owner) s = (.ok current, s))
    (hswap : ∀ next,
      ∃ e, b (.swapProfile p.owner (current.map (·.revision)) next) s = (.error e, s))
    (fingerprint : String) (time : UInt64) :
    ∃ e, (p.revokeKey fingerprint time).run b s = (.error (.store e), s) := by
  obtain ⟨attempts, hmax⟩ := Nat.exists_eq_add_one_of_ne_zero hattempts.ne'
  have hrefresh : (p.refresh (profileOf current) none).run b s = (.ok (profileOf current), s) := rfl
  rw [run_revokeKey, editProfile, hmax]
  generalize (fun profile : Profile => match profile.revoke? fingerprint time with
    | some revoked => (revoked, true)
    | none => (profile, false)) = edit
  obtain ⟨e, he⟩ := hswap (edit (profileOf current)).1
  refine ⟨e, ?_⟩
  simp only [run_editProfileTimes_succ, hload, hrefresh, he]
  rfl

lemma attempts_of_unknownFingerprint {σ : Type} {b : Backend σ} {p : Publisher} {s s' : σ}
    {fingerprint : String} {time : UInt64} (h : (p.revokeKey fingerprint time).run b s =
      (.error (.misuse (.unknownFingerprint fingerprint)), s')) : 0 < p.settings.maxAttempts := by
  refine Nat.pos_of_ne_zero fun hnone => ?_
  rw [run_revokeKey_of_no_attempts b hnone] at h
  cases h

/-- A revocation that reports an unknown key has not found it in the profile that it has put
back. -/
theorem of_unknownFingerprint {σ : Type} {b : Backend σ} {p : Publisher} {s s' : σ}
    {current : Option (Versioned Profile)} {after : Profile → σ}
    (hload : b (.loadProfile p.owner) s = (.ok current, s))
    (hswap : ∀ next, b (.swapProfile p.owner (current.map (·.revision)) next) s =
      (.ok .swapped, after next)) {fingerprint : String} {time : UInt64}
    (h : (p.revokeKey fingerprint time).run b s =
      (.error (.misuse (.unknownFingerprint fingerprint)), s')) :
    (profileOf current).revoke? fingerprint time = none ∧ s' = after (profileOf current) := by
  rw [run_revokeKey_of_lands (attempts_of_unknownFingerprint h) hload hswap] at h
  cases hrevoke : (profileOf current).revoke? fingerprint time with
  | some revoked =>
    rw [hrevoke] at h
    cases h
  | none =>
    rw [hrevoke] at h
    cases h
    exact ⟨rfl, rfl⟩

end Publisher

namespace Memory

def withProfile (m : Memory) (owner : Address) (record : Versioned Profile) : Memory :=
  { m with profiles := m.profiles.set owner record }

lemma swapProfile_current (m : Memory) (owner : Address) (next : Profile) :
    backend (.swapProfile owner ((m.profiles.get? owner).map (·.revision)) next) m =
      (.ok .swapped, m.withProfile owner ⟨next, revisionOf (m.profiles.get? owner) + 1⟩) := by
  simp only [backend, swapProfile, if_true]
  rfl

end Memory

namespace Rows

def withProfile (r : Rows) (owner : Address) (record : Versioned Profile) : Rows :=
  { r with profiles := r.profiles.set owner.text record.row }

variable {r : Rows} {records : Records}

lemma HoldsRecords.swapProfile_current (h : r.HoldsRecords records) (owner : Address)
    (hlimit : revisionOf (records owner) < revisionLimit) (next : Profile) :
    backend (.swapProfile owner ((records owner).map (·.revision)) next) r =
      (.ok .swapped, r.withProfile owner ⟨next, revisionOf (records owner) + 1⟩) := by
  rw [backend, h.swapProfile owner hlimit, if_pos rfl]
  rfl

lemma HoldsRecords.withProfile (h : r.HoldsRecords records) (owner : Address)
    {record : Versioned Profile} (hrecord : record.value.Storable) :
    (r.withProfile owner record).HoldsRecords (Function.update records owner (some record)) :=
  h.set owner record hrecord

lemma HoldsRecords.profileOf_storable (h : r.HoldsRecords records) (owner : Address) :
    (profileOf (records owner)).Storable := by
  cases hrecord : records owner with
  | none => exact Profile.storable_empty
  | some record => exact h.storable owner record hrecord

end Rows

/-- The record that an owner is left with if a profile is swapped in as it is. -/
def nextRecord (record : Option (Versioned Profile)) : Versioned Profile :=
  ⟨profileOf record, revisionOf record + 1⟩

/-- A revocation that does not find its key leaves the profile as it is, but at the next revision,
and an empty profile at the first revision where there was none. Nothing else changes. -/
theorem failed_revocation_adds_revision (p : Publisher) (fingerprint : String) (time : UInt64) :
    (∀ m m' : Memory, (p.revokeKey fingerprint time).run Memory.backend m =
        (.error (.misuse (.unknownFingerprint fingerprint)), m') →
      (profileOf (m.profiles.get? p.owner)).revoke? fingerprint time = none ∧
        m' = m.withProfile p.owner (nextRecord (m.profiles.get? p.owner))) ∧
    ∀ (r r' : Rows) (records : Records), r.HoldsRecords records →
      (p.revokeKey fingerprint time).run Rows.backend r =
        (.error (.misuse (.unknownFingerprint fingerprint)), r') →
      (profileOf (records p.owner)).revoke? fingerprint time = none ∧
        r' = r.withProfile p.owner (nextRecord (records p.owner)) ∧
        r'.HoldsRecords
          (Function.update records p.owner (some (nextRecord (records p.owner)))) := by
  constructor
  · intro m m' h
    obtain ⟨hrevoke, rfl⟩ :=
      Publisher.of_unknownFingerprint rfl (m.swapProfile_current p.owner) h
    exact ⟨hrevoke, rfl⟩
  · intro r r' records hrecords h
    have hload : Rows.backend (.loadProfile p.owner) r = (.ok (records p.owner), r) := by
      rw [Rows.backend, hrecords.readProfile]
    by_cases hlimit : revisionOf (records p.owner) < revisionLimit
    · obtain ⟨hrevoke, rfl⟩ :=
        Publisher.of_unknownFingerprint hload (hrecords.swapProfile_current p.owner hlimit) h
      exact ⟨hrevoke, rfl, hrecords.withProfile p.owner (hrecords.profileOf_storable p.owner)⟩
    · have hrefused (next : Profile) :=
        r.swapProfile_of_limit (Nat.le_of_not_lt hlimit) p.owner next
      obtain ⟨e, he⟩ := Publisher.run_revokeKey_of_refused
        (Publisher.attempts_of_unknownFingerprint h) hload hrefused fingerprint time
      rw [he] at h
      cases h

lemma samplePublisher_revokes_nothing :
    (samplePublisher.revokeKey "0x00" 10).run Memory.backend .empty =
        (.error (.misuse (.unknownFingerprint "0x00")),
          Memory.empty.withProfile samplePublisher.owner ⟨.empty, 1⟩) ∧
      (samplePublisher.revokeKey "0x00" 10).run Rows.backend .fresh =
        (.error (.misuse (.unknownFingerprint "0x00")),
          Rows.withProfile .fresh samplePublisher.owner ⟨.empty, 1⟩) := by
  have hattempts : 0 < samplePublisher.settings.maxAttempts := by decide
  have hlimit : revisionOf none < revisionLimit := by decide
  constructor
  · exact Publisher.run_revokeKey_of_lands hattempts rfl
      (Memory.empty.swapProfile_current samplePublisher.owner) "0x00" 10
  · exact Publisher.run_revokeKey_of_lands hattempts rfl
      (Rows.HoldsRecords.fresh.swapProfile_current samplePublisher.owner hlimit) "0x00" 10

theorem samplePublisher_adds_revision :
    (∃ m, (samplePublisher.revokeKey "0x00" 10).run Memory.backend .empty =
        (.error (.misuse (.unknownFingerprint "0x00")), m) ∧
      m = Memory.empty.withProfile samplePublisher.owner (nextRecord none)) ∧
    ∃ r, (samplePublisher.revokeKey "0x00" 10).run Rows.backend .fresh =
        (.error (.misuse (.unknownFingerprint "0x00")), r) ∧
      r = Rows.withProfile .fresh samplePublisher.owner (nextRecord none) := by
  obtain ⟨hm, hr⟩ := samplePublisher_revokes_nothing
  obtain ⟨hmemory, hrows⟩ := failed_revocation_adds_revision samplePublisher "0x00" 10
  exact ⟨⟨_, hm, (hmemory _ _ hm).2⟩, _, hr, (hrows _ _ _ Rows.HoldsRecords.fresh hr).2.1⟩

/-- Revoking a key where there is no profile fails, and leaves a profile. -/
theorem revocation_of_nothing_leaves_profile :
    (∃ m, (samplePublisher.revokeKey "0x00" 10).run Memory.backend .empty =
        (.error (.misuse (.unknownFingerprint "0x00")), m) ∧
      Memory.backend (.loadProfile samplePublisher.owner) .empty = (.ok none, .empty) ∧
      Memory.backend (.loadProfile samplePublisher.owner) m = (.ok (some ⟨.empty, 1⟩), m)) ∧
    ∃ r, (samplePublisher.revokeKey "0x00" 10).run Rows.backend .fresh =
        (.error (.misuse (.unknownFingerprint "0x00")), r) ∧
      Rows.backend (.loadProfile samplePublisher.owner) .fresh = (.ok none, .fresh) ∧
      Rows.backend (.loadProfile samplePublisher.owner) r = (.ok (some ⟨.empty, 1⟩), r) := by
  obtain ⟨hm, hr⟩ := samplePublisher_revokes_nothing
  constructor
  · refine ⟨_, hm, rfl, ?_⟩
    rw [Memory.backend, Memory.withProfile, Table.get?_set, if_pos rfl]
  · refine ⟨_, hr, rfl, ?_⟩
    have hafter : (Rows.withProfile .fresh samplePublisher.owner ⟨.empty, 1⟩).HoldsRecords _ :=
      Rows.HoldsRecords.fresh.withProfile samplePublisher.owner Profile.storable_empty
    change ((Rows.withProfile .fresh samplePublisher.owner ⟨.empty, 1⟩).readProfile _, _) = _
    rw [hafter.readProfile, Function.update_self]

end SignedNames
