import Mathlib
import SignedNames.Proofs.AddressText
import SignedNames.Proofs.Reloading
import SignedNames.Proofs.SigningKeys

/-!
# The life of a key

Keys are registered in a profile and revoked in it any number of times. What a key is worth is told
from the last registration under its address and the earliest of the revocations since then; all
other edits do not matter, and neither does the order of the revocations.
-/
namespace SignedNames

namespace SigningKey

/-- The standing of a key at a time. A revocation that has come into force goes before the window of
validity. -/
structure Standing (k : SigningKey) (t : UInt64) (status : KeyStatus) : Prop where
  revoked : ∀ since, status = .revoked since ↔ k.revokedAt = some since ∧ since ≤ t
  notYetValid : status = .notYetValid ↔ (∀ since ∈ k.revokedAt, t < since) ∧ t < k.validFrom
  expired : status = .expired ↔
    (∀ since ∈ k.revokedAt, t < since) ∧ k.validFrom ≤ t ∧ ∃ stop ∈ k.validTo, stop ≤ t
  active : status = .active ↔ k.ActiveAt t

theorem standing_statusAt (k : SigningKey) (t : UInt64) : k.Standing t (k.statusAt t) := by
  have hactive := k.statusAt_eq_active_iff t
  cases hrevoked : k.revokedAt.filter (· ≤ t) with
  | some since =>
    obtain ⟨hsince, hle⟩ := Option.filter_eq_some_iff.1 hrevoked
    have hstatus : k.statusAt t = .revoked since := by rw [statusAt, hrevoked]
    have hpast : ¬∀ s ∈ k.revokedAt, t < s := fun h =>
      UInt64.not_lt.2 (of_decide_eq_true hle) (h since hsince)
    rw [hstatus] at hactive ⊢
    refine ⟨fun s => ?_, ?_, ?_, hactive⟩
    · rw [hsince, KeyStatus.revoked.injEq, Option.some.injEq]
      exact ⟨fun h => ⟨h, h ▸ of_decide_eq_true hle⟩, And.left⟩
    · refine ⟨fun h => ?_, fun h => absurd h.1 hpast⟩
      cases h
    · refine ⟨fun h => ?_, fun h => absurd h.1 hpast⟩
      cases h
  | none =>
    have hunrevoked := (filter_le_eq_none_iff _ t).1 hrevoked
    have hstatus : k.statusAt t = if t < k.validFrom then .notYetValid
        else if (k.validTo.filter (· ≤ t)).isSome then .expired else .active := by
      rw [statusAt, hrevoked]
    have hexpired : (k.validTo.filter (· ≤ t)).isSome ↔ ∃ stop ∈ k.validTo, stop ≤ t := by
      cases k.validTo <;> simp [Option.filter]
    have hnever (since : UInt64) : ¬(k.revokedAt = some since ∧ since ≤ t) := fun h =>
      UInt64.not_lt.2 h.2 (hunrevoked since h.1)
    refine ⟨fun since => ?_, ?_, ?_, hactive⟩ <;> rw [hstatus]
    · refine ⟨fun h => ?_, fun h => absurd h (hnever since)⟩
      split_ifs at h
    · rw [and_iff_right hunrevoked]
      split_ifs with hearly hover <;> simp [hearly]
    · rw [and_iff_right hunrevoked, ← hexpired, ← UInt64.not_lt]
      split_ifs with hearly hover
      · simp [hearly]
      · simp [hearly, hover]
      · simp [hearly, hover]

/-- The key with the earliest of its own revocation and some others. -/
def revokedBy (k : SigningKey) (times : List UInt64) : SigningKey :=
  { k with revokedAt := (k.revokedAt.toList ++ times).min? }

lemma revokedBy_eq_of_perm (k : SigningKey) {times others : List UInt64}
    (h : times.Perm others) : k.revokedBy times = k.revokedBy others := by
  have hmin : (k.revokedAt.toList ++ times).min? = (k.revokedAt.toList ++ others).min? := by
    apply Option.ext
    intro since
    rw [List.min?_eq_some_iff, List.min?_eq_some_iff]
    simp only [(h.append_left _).mem_iff]
  rw [revokedBy, revokedBy, hmin]

lemma exists_revokedAt_revokedBy {k : SigningKey} {since : UInt64} (h : k.revokedAt = some since)
    (times : List UInt64) : ∃ first ≤ since, (k.revokedBy times).revokedAt = some first := by
  have hmem : since ∈ k.revokedAt.toList ++ times := by simp [h]
  cases hmin : (k.revokedAt.toList ++ times).min? with
  | none => exact absurd (List.min?_eq_none_iff.1 hmin) (List.ne_nil_of_mem hmem)
  | some first => exact ⟨first, (List.min?_eq_some_iff.1 hmin).2 since hmem, hmin⟩

theorem foldl_revoke (k : SigningKey) (times : List UInt64) :
    times.foldl revoke k = k.revokedBy times := by
  have revokedAlready (k : SigningKey) (since : UInt64) (times : List UInt64) :
      times.foldl revoke { k with revokedAt := some since } =
        { k with revokedAt := some (times.foldl min since) } := by
    induction times generalizing since with
    | nil => rfl
    | cons time times ih => exact ih (min since time)
  obtain ⟨publicKey, validFrom, validTo, revokedAt⟩ := k
  cases revokedAt with
  | some since => exact revokedAlready ⟨publicKey, validFrom, validTo, none⟩ since times
  | none =>
    cases times with
    | nil => rfl
    | cons time times => exact revokedAlready ⟨publicKey, validFrom, validTo, none⟩ time times

end SigningKey

namespace Profile

/-- The edit puts a key under the address. A key without a fingerprint is put nowhere. -/
def Edit.Registers (signer : Address) : Edit → Prop
  | .setHead .. => False
  | .register k => k.fingerprint = .ok signer
  | .revoke .. => False

def Edit.revocation? (signer : Address) : Edit → Option UInt64
  | .setHead .. => none
  | .register _ => none
  | .revoke fingerprint time => if Text.lower fingerprint = signer.text then some time else none

def Edit.Concerns (signer : Address) (e : Edit) : Prop :=
  e.Registers signer ∨ e.revocation? signer ≠ none

variable {signer : Address}

lemma key?_putKey (p : Profile) (fingerprint : Address) (k : SigningKey) :
    (p.putKey fingerprint k).key? signer =
      if signer = fingerprint then some k else p.key? signer := by
  simp only [key?, putKey, NameMap.get?_insert, Address.text_injective.eq_iff]

lemma key?_register (p : Profile) {k : SigningKey} (h : k.fingerprint = .ok signer) :
    (Edit.apply p (.register k)).key? signer = some k := by
  rw [Edit.apply, register, h]
  exact (key?_putKey p signer k).trans (if_pos rfl)

lemma key?_apply (p : Profile) {e : Edit} (h : ¬e.Registers signer) :
    (Edit.apply p e).key? signer =
      (p.key? signer).map fun k => (e.revocation? signer).toList.foldl SigningKey.revoke k := by
  cases e with
  | setHead namespaceName head => exact Option.map_id'.symm
  | register k =>
    have hkept : (Edit.apply p (.register k)).key? signer = p.key? signer := by
      rw [Edit.apply, register]
      cases hfingerprint : k.fingerprint with
      | error e => rfl
      | ok fingerprint =>
        have hne : signer ≠ fingerprint := fun heq => h (heq ▸ hfingerprint)
        exact (key?_putKey p fingerprint k).trans (if_neg hne)
    exact hkept.trans Option.map_id'.symm
  | revoke fingerprint time =>
    rw [Edit.apply, revoke?, NameMap.modify?, Edit.revocation?]
    by_cases hkey : Text.lower fingerprint = signer.text
    · rw [if_pos hkey, hkey]
      cases hfound : p.signingKeys.get? signer.text with
      | none => simp [key?, hfound]
      | some k => simp [key?, hfound]
    · rw [if_neg hkey]
      cases hfound : p.signingKeys.get? (Text.lower fingerprint) with
      | none => simp
      | some k =>
        have hne : signer.text ≠ Text.lower fingerprint := fun heq => hkey heq.symm
        simp [key?, hne]

/-- Without a new registration, the key is the old one with all the revocations since. -/
theorem key?_foldl_apply (p : Profile) {edits : List Edit}
    (h : ∀ e ∈ edits, ¬e.Registers signer) :
    (edits.foldl Edit.apply p).key? signer =
      (p.key? signer).map (·.revokedBy (edits.filterMap (Edit.revocation? signer))) := by
  simp only [← SigningKey.foldl_revoke]
  induction edits generalizing p with
  | nil => exact Option.map_id'.symm
  | cons e edits ih =>
    obtain ⟨he, hedits⟩ := List.forall_mem_cons.1 h
    rw [List.foldl_cons, ih _ hedits, key?_apply p he, Option.map_map]
    congr 1
    funext k
    cases htime : e.revocation? signer with
    | none => simp [List.filterMap_cons_none htime]
    | some time => simp [List.filterMap_cons_some htime]

/-- What becomes of a key depends on that key alone. -/
lemma key?_foldl_congr {p q : Profile} (h : p.key? signer = q.key? signer) (edits : List Edit) :
    (edits.foldl Edit.apply p).key? signer = (edits.foldl Edit.apply q).key? signer := by
  induction edits generalizing p q with
  | nil => exact h
  | cons e edits ih =>
    refine ih ?_
    by_cases he : e.Registers signer
    · cases e with
      | setHead namespaceName head => exact he.elim
      | register k => rw [key?_register p he, key?_register q he]
      | revoke fingerprint time => exact he.elim
    · rw [key?_apply p he, key?_apply q he, h]

def ofEdits (edits : List Edit) : Profile := edits.foldl Edit.apply empty

lemma keyStatus_eq_of_key?_eq {p q : Profile} (h : p.key? signer = q.key? signer) (t : UInt64) :
    p.keyStatus signer t = q.keyStatus signer t := by
  rw [keyStatus, keyStatus, h]

lemma keyStatus_of_not_registered {edits : List Edit} (h : ∀ e ∈ edits, ¬e.Registers signer)
    (t : UInt64) : (ofEdits edits).keyStatus signer t = .notRegistered := by
  rw [keyStatus_eq_notRegistered_iff, ofEdits, key?_foldl_apply empty h]
  rfl

lemma key?_of_last_registered (before : List Edit) {k : SigningKey} {later : List Edit}
    (hk : k.fingerprint = .ok signer) (hlast : ∀ e ∈ later, ¬e.Registers signer) :
    (ofEdits (before ++ .register k :: later)).key? signer =
      some (k.revokedBy (later.filterMap (Edit.revocation? signer))) := by
  rw [ofEdits, List.foldl_append, List.foldl_cons, key?_foldl_apply _ hlast, key?_register _ hk,
    Option.map_some]

/-- The order of edits that do not register the key is irrelevant, whatever goes before and
after. -/
lemma keyStatus_of_perm (before after : List Edit) {edits others : List Edit}
    (h : edits.Perm others) (hedits : ∀ e ∈ edits, ¬e.Registers signer) (t : UInt64) :
    (ofEdits (before ++ edits ++ after)).keyStatus signer t =
      (ofEdits (before ++ others ++ after)).keyStatus signer t := by
  have hothers : ∀ e ∈ others, ¬e.Registers signer := fun e he => hedits e (h.mem_iff.2 he)
  have hkey (p : Profile) : (edits.foldl Edit.apply p).key? signer =
      (others.foldl Edit.apply p).key? signer := by
    rw [key?_foldl_apply p hedits, key?_foldl_apply p hothers]
    simp only [SigningKey.revokedBy_eq_of_perm _ (h.filterMap (Edit.revocation? signer))]
  simp only [ofEdits, List.foldl_append]
  exact keyStatus_eq_of_key?_eq (key?_foldl_congr (hkey _) after) t

/-- A key that was revoked stays so, from then on or from earlier, until it is registered anew. -/
lemma exists_revoked_of_revoked {edits later : List Edit} {t since : UInt64}
    (h : (ofEdits edits).keyStatus signer t = .revoked since)
    (hlater : ∀ e ∈ later, ¬e.Registers signer) :
    ∃ first ≤ since, (ofEdits (edits ++ later)).keyStatus signer t = .revoked first := by
  have hkey := key?_foldl_apply (ofEdits edits) hlater
  rw [keyStatus] at h
  cases hfound : (ofEdits edits).key? signer with
  | none =>
    rw [hfound] at h
    cases h
  | some k =>
    rw [hfound] at h
    obtain ⟨hsince, hle⟩ := ((k.standing_statusAt t).revoked since).1 h
    obtain ⟨first, hfirst, hrevoked⟩ := SigningKey.exists_revokedAt_revokedBy hsince
      (later.filterMap (Edit.revocation? signer))
    refine ⟨first, hfirst, ?_⟩
    rw [keyStatus, ofEdits, List.foldl_append]
    rw [ofEdits] at hkey hfound
    rw [hkey, hfound]
    exact ((SigningKey.standing_statusAt _ t).revoked first).2
      ⟨hrevoked, UInt64.le_trans hfirst hle⟩

lemma keyStatus_of_not_concerns {e : Edit} (h : ¬e.Concerns signer) (before after : List Edit)
    (t : UInt64) : (ofEdits (before ++ e :: after)).keyStatus signer t =
      (ofEdits (before ++ after)).keyStatus signer t := by
  rw [Edit.Concerns, not_or, not_not] at h
  have hkey (p : Profile) : (Edit.apply p e).key? signer = p.key? signer := by
    rw [key?_apply p h.1, h.2]
    exact Option.map_id'
  simp only [ofEdits, List.foldl_append, List.foldl_cons]
  exact keyStatus_eq_of_key?_eq (key?_foldl_congr (hkey _) after) t

/-- What a key is worth after any edits. It is not registered if none of them registered it.
Otherwise the last registration counts, with the earliest of its own revocation and those that came
after it. The order of revocations is irrelevant, a later one postpones nothing, and edits of other
keys change nothing. -/
theorem keyStatus_over_life (signer : Address) (t : UInt64) :
    (∀ edits : List Edit, (∀ e ∈ edits, ¬e.Registers signer) →
      (ofEdits edits).keyStatus signer t = .notRegistered) ∧
    (∀ (before : List Edit) (k : SigningKey) (later : List Edit), k.fingerprint = .ok signer →
      (∀ e ∈ later, ¬e.Registers signer) →
        (k.revokedBy (later.filterMap (Edit.revocation? signer))).Standing t
          ((ofEdits (before ++ .register k :: later)).keyStatus signer t)) ∧
    (∀ before edits others after : List Edit, edits.Perm others →
      (∀ e ∈ edits, ¬e.Registers signer) →
        (ofEdits (before ++ edits ++ after)).keyStatus signer t =
          (ofEdits (before ++ others ++ after)).keyStatus signer t) ∧
    (∀ (edits later : List Edit) (since : UInt64),
      (ofEdits edits).keyStatus signer t = .revoked since → (∀ e ∈ later, ¬e.Registers signer) →
        ∃ first ≤ since, (ofEdits (edits ++ later)).keyStatus signer t = .revoked first) ∧
    ∀ (before : List Edit) (e : Edit) (after : List Edit), ¬e.Concerns signer →
      (ofEdits (before ++ e :: after)).keyStatus signer t =
        (ofEdits (before ++ after)).keyStatus signer t := by
  refine ⟨fun _ h => keyStatus_of_not_registered h t, fun before k later hk hlast => ?_,
    fun before _ _ after hperm h => keyStatus_of_perm before after hperm h t,
    fun _ _ _ h hlater => exists_revoked_of_revoked h hlater,
    fun before _ after h => keyStatus_of_not_concerns h before after t⟩
  rw [keyStatus, key?_of_last_registered before hk hlast]
  exact SigningKey.standing_statusAt _ t

def wallet : Address := ⟨.replicate 20 0xab⟩

/-- Valid from 100 until 200, and revoked from 170 on. -/
def walletKey : SigningKey := ⟨wallet.text, 100, some 200, some 170⟩

/-- Two revocations, the earlier one under capital digits, and a key that cannot be registered. -/
def walletEdits : List Edit := [
  .revoke "0xABABABABABABABABABABABABABABABABABABABAB" 150,
  .register { walletKey with publicKey := "0x1234" },
  .revoke wallet.text 160]

lemma fingerprint_walletKey : walletKey.fingerprint = .ok wallet := by
  rw [SigningKey.fingerprint, walletKey, Address.parse_text]

lemma walletEdits_not_registers : ∀ e ∈ walletEdits, ¬e.Registers wallet := by
  have hfault : ¬SigningKey.fingerprint { walletKey with publicKey := "0x1234" } = .ok wallet := by
    decide +kernel
  simpa [walletEdits, Edit.Registers] using hfault

lemma walletKey_revokedBy :
    walletKey.revokedBy (walletEdits.filterMap (Edit.revocation? wallet)) =
      { walletKey with revokedAt := some 150 } := by
  have htimes : walletEdits.filterMap (Edit.revocation? wallet) = [150, 160] := by decide +kernel
  rw [htimes]
  rfl

theorem walletKey_over_life :
    (∀ e ∈ walletEdits, ¬e.Registers wallet) ∧ walletKey.fingerprint = .ok wallet ∧
      (ofEdits walletEdits).keyStatus wallet 300 = .notRegistered ∧
      (ofEdits (.register walletKey :: walletEdits)).keyStatus wallet 149 = .active ∧
      (ofEdits (.register walletKey :: walletEdits)).keyStatus wallet 150 = .revoked 150 ∧
      (ofEdits (.register walletKey :: walletEdits.reverse)).keyStatus wallet 150 = .revoked 150 ∧
      (∃ first ≤ 150, (ofEdits (.register walletKey :: walletEdits ++
        [.revoke wallet.text 120])).keyStatus wallet 150 = .revoked first) ∧
      ¬(Edit.revoke "0x00" 1).Concerns wallet ∧
      (ofEdits (.register walletKey :: .revoke "0x00" 1 :: walletEdits)).keyStatus wallet 150 =
        .revoked 150 := by
  have hedits := walletEdits_not_registers
  have hkey := fingerprint_walletKey
  have hother : ¬(Edit.revoke "0x00" 1).Concerns wallet := by
    have hne : ¬Text.lower "0x00" = wallet.text := by decide +kernel
    simp [Edit.Concerns, Edit.Registers, Edit.revocation?, hne]
  obtain ⟨hnever, -, -, -, -⟩ := keyStatus_over_life wallet 300
  obtain ⟨-, hearly, -, -, -⟩ := keyStatus_over_life wallet 149
  obtain ⟨-, hlast, horder, hstays, hothers⟩ := keyStatus_over_life wallet 150
  have hactive := hearly [] walletKey walletEdits hkey hedits
  have hrevoked := hlast [] walletKey walletEdits hkey hedits
  rw [walletKey_revokedBy] at hactive hrevoked
  have hat150 := (hrevoked.revoked 150).2 ⟨rfl, UInt64.le_refl _⟩
  refine ⟨hedits, hkey, hnever walletEdits hedits, hactive.active.2 ⟨?_, ?_, ?_⟩, hat150, ?_, ?_,
    hother, ?_⟩
  · decide
  · rintro _ ⟨⟩
    decide
  · rintro _ ⟨⟩
    decide
  · have hperm := horder [.register walletKey] _ _ [] (List.reverse_perm walletEdits).symm hedits
    simp only [List.append_nil, List.singleton_append] at hperm
    exact hperm.symm.trans hat150
  · exact hstays _ [.revoke wallet.text 120] 150 hat150 (List.forall_mem_singleton.2 id)
  · exact (hothers [.register walletKey] _ walletEdits hother).trans hat150

end Profile
end SignedNames
