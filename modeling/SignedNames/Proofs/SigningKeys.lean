import Mathlib
import SignedNames.Profile

/-!
# Keys that may sign

When a key is active, and what a profile answers about a signer.
-/
namespace SignedNames

/-- The window of a key has begun and is not over, and no revocation has come into force. -/
structure SigningKey.ActiveAt (k : SigningKey) (t : UInt64) : Prop where
  started : k.validFrom ≤ t
  unexpired : ∀ stop ∈ k.validTo, t < stop
  unrevoked : ∀ since ∈ k.revokedAt, t < since

lemma filter_le_eq_none_iff (limit : Option UInt64) (t : UInt64) :
    limit.filter (· ≤ t) = none ↔ ∀ stop ∈ limit, t < stop := by
  simp only [Option.filter_eq_none_iff, decide_eq_true_eq, UInt64.not_le, Option.mem_def]

theorem SigningKey.statusAt_eq_active_iff (k : SigningKey) (t : UInt64) :
    k.statusAt t = .active ↔ k.ActiveAt t := by
  rw [statusAt]
  cases hrevoked : k.revokedAt.filter (· ≤ t) with
  | some since =>
    refine ⟨nofun, fun h => ?_⟩
    rw [(filter_le_eq_none_iff _ t).2 h.unrevoked] at hrevoked
    cases hrevoked
  | none =>
    have hunrevoked := (filter_le_eq_none_iff _ t).1 hrevoked
    dsimp only
    split
    · rename_i hearly
      exact ⟨nofun, fun h => absurd hearly (UInt64.not_lt.2 h.started)⟩
    · rename_i hstarted
      cases hexpired : k.validTo.filter (· ≤ t) with
      | some stop =>
        refine ⟨nofun, fun h => ?_⟩
        rw [(filter_le_eq_none_iff _ t).2 h.unexpired] at hexpired
        cases hexpired
      | none =>
        have hunexpired := (filter_le_eq_none_iff _ t).1 hexpired
        exact ⟨fun _ => ⟨UInt64.not_lt.1 hstarted, hunexpired, hunrevoked⟩, fun _ => rfl⟩

lemma SigningKey.statusAt_ne_notRegistered (k : SigningKey) (t : UInt64) :
    k.statusAt t ≠ .notRegistered := by
  rw [statusAt]
  split
  · nofun
  · repeat' split
    all_goals nofun

namespace Profile

variable (p : Profile) (signer : Address) (t : UInt64)

theorem keyStatus_eq_active_iff :
    p.keyStatus signer t = .active ↔ ∃ k, p.key? signer = some k ∧ k.ActiveAt t := by
  rw [keyStatus]
  cases p.key? signer with
  | none => exact ⟨nofun, nofun⟩
  | some k => simp [SigningKey.statusAt_eq_active_iff]

theorem keyStatus_eq_notRegistered_iff :
    p.keyStatus signer t = .notRegistered ↔ p.key? signer = none := by
  rw [keyStatus]
  cases p.key? signer with
  | none => exact ⟨fun _ => rfl, fun _ => rfl⟩
  | some k => simp [SigningKey.statusAt_ne_notRegistered]

end Profile
end SignedNames
