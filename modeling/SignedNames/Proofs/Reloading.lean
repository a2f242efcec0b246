import Mathlib
import SignedNames.Proofs.Scripts

/-!
# Reloading

Indexes and profiles are stored as documents, and loaded before every edit. Loading brings names to
lower case, which changes nothing in a record that the code has made, so a profile may be stored and
loaded any number of times between edits.
-/
namespace SignedNames
open Json

namespace Profile

inductive Edit
  | setHead (namespaceName : String) (head : Cid)
  | register (k : SigningKey)
  | revoke (fingerprint : String) (time : UInt64)

/-- A key without a fingerprint is not registered, and one that is not there not revoked. -/
def Edit.apply (p : Profile) : Edit → Profile
  | .setHead namespaceName head => p.setHead namespaceName head
  | .register k =>
    match p.register k with
    | .ok (_, registered) => registered
    | .error _ => p
  | .revoke fingerprint time => (p.revoke? fingerprint time).getD p

/-- The document after rounds of loading a profile, editing it and storing it. -/
def storedAfter : (rounds : List (List Edit)) → (document : String) → Except DataError String
  | [], document => .ok document
  | edits :: rounds, document => do
    let p ← Profile.parse document
    storedAfter rounds (edits.foldl Edit.apply p).document

lemma Made.apply {p : Profile} (h : p.Made) (e : Edit) : (e.apply p).Made := by
  cases e with
  | setHead namespaceName head => exact h.setHead namespaceName head
  | register k =>
    rw [Edit.apply]
    split
    · rename_i hregister
      exact h.registered hregister
    · exact h
  | revoke fingerprint time =>
    rw [Edit.apply]
    cases hrevoke : p.revoke? fingerprint time with
    | none => exact h
    | some revoked => exact h.revoked hrevoke

lemma Made.foldl_apply {p : Profile} (h : p.Made) (edits : List Edit) :
    (edits.foldl Edit.apply p).Made := by
  induction edits generalizing p with
  | nil => exact h
  | cons e edits ih => exact ih (h.apply e)

lemma extra_apply (p : Profile) (e : Edit) : (e.apply p).extra = p.extra := by
  cases e with
  | setHead namespaceName head => rfl
  | register k =>
    rw [Edit.apply, Profile.register]
    cases k.fingerprint <;> rfl
  | revoke fingerprint time =>
    rw [Edit.apply, revoke?]
    cases p.signingKeys.modify? (Text.lower fingerprint) fun k => k.revoke time <;> rfl

lemma extra_foldl_apply (p : Profile) (edits : List Edit) :
    (edits.foldl Edit.apply p).extra = p.extra := by
  induction edits generalizing p with
  | nil => rfl
  | cons e edits ih => exact (ih _).trans (extra_apply p e)

/-- Storing and loading a profile between edits changes nothing. -/
theorem parse_storedAfter (rounds : List (List Edit)) {s : String} {p : Profile}
    (h : Profile.parse s = .ok p) (hmade : p.Made) :
    (storedAfter rounds s) >>= Profile.parse = .ok (rounds.flatten.foldl Edit.apply p) := by
  induction rounds generalizing s p with
  | nil => exact h
  | cons edits rounds ih =>
    have hedited := hmade.foldl_apply edits
    rw [storedAfter, h, List.flatten_cons, List.foldl_append]
    exact ih (parse_document hedited.storable) hedited

end Profile

/-- An index that advances made and a profile that was parsed and then edited are read back from
their documents as they are, no key changed. Whatever else a document says of a profile keeps its
value through any number of loads, edits and stores. -/
theorem reloading_loses_nothing :
    (∀ i : NameIndex, i.Made →
      NameIndex.parse i.document = .ok i ∧ i.entries.mapKeys Text.lower = i.entries) ∧
    (∀ p : Profile, p.Made →
      Profile.parse p.document = .ok p ∧ p.namespaces.mapKeys Text.lower = p.namespaces ∧
        p.signingKeys.mapKeys Text.lower = p.signingKeys) ∧
    (∀ s : String, Text.lower (Text.lower s) = Text.lower s) ∧
    ∀ (s : String) (p : Profile), Profile.parse s = .ok p →
      (∀ m ∈ p.extra.entries, m.2.FloatFree) → ∀ rounds : List (List Profile.Edit),
        ∃ q, (Profile.storedAfter rounds s) >>= Profile.parse = .ok q ∧
          q = rounds.flatten.foldl Profile.Edit.apply p ∧
          ∀ key, Profile.Undeclared key →
            q.extra.get? key = ((scan s).1.lastMember? key).bind Tree.value? := by
  refine ⟨fun i hi => ?_, fun p hp => ?_, Text.lower_lower, fun s p h hfloat rounds => ?_⟩
  · exact ⟨NameIndex.parse_document hi.normal, NameMap.mapKeys_eq_self hi.normal⟩
  · have hstorable := hp.storable
    exact ⟨Profile.parse_document hstorable, NameMap.mapKeys_eq_self hstorable.namespaces,
      NameMap.mapKeys_eq_self hstorable.signingKeys⟩
  · refine ⟨_, Profile.parse_storedAfter rounds h (.parsed h hfloat), rfl, fun key hkey => ?_⟩
    rw [Profile.extra_foldl_apply]
    exact Profile.extra_of_parse h hkey

/-- Names that are longer in lower case, or end in a sigma. -/
def capitalIndex : NameIndex :=
  .advance none (Cid.ofBytes []) ⟨none, ["İΣ", "ΣΑΣ"].map fun name =>
    { sampleLink with body := { sampleLink.body with name } }⟩

def theme : Value := .object [("dark", .bool true), ("hue", .number (.natural 7))]

def themedProfile : Profile := { Profile.empty with extra := .ofList [("theme", theme)] }

lemma theme_within : theme.Within (nestingLimit - 1) := by
  refine .object fun m hm => ?_
  rcases List.mem_pair.1 hm with rfl | rfl
  · exact .bool ..
  · exact .natural ..

lemma theme_ordered : theme.Ordered := by
  refine .object (by decide) fun m hm => ?_
  rcases List.mem_pair.1 hm with rfl | rfl
  · exact .bool ..
  · exact .number ..

lemma theme_floatFree : theme.FloatFree := by
  refine .object fun m hm => ?_
  rcases List.mem_pair.1 hm with rfl | rfl
  · exact .bool ..
  · exact .natural ..

lemma themedProfile_parsed : Profile.parse themedProfile.document = .ok themedProfile := by
  have htheme : Profile.StorableMember ("theme", theme) := ⟨rfl, theme_within, theme_ordered⟩
  exact Profile.parse_document
    ⟨List.forall_mem_nil _, List.forall_mem_nil _, List.forall_mem_singleton.2 htheme⟩

theorem themedProfile_reloaded :
    capitalIndex.names = ["i̇ς", "σας"] ∧
      NameIndex.parse capitalIndex.document = .ok capitalIndex ∧
      ∃ q, Profile.storedAfter [[.setHead "Docs" (Cid.ofBytes [])], [.revoke "0x00" 1]]
          themedProfile.document >>= Profile.parse = .ok q ∧
        q = themedProfile.setHead "Docs" (Cid.ofBytes []) ∧
        q.extra.get? "theme" =
          ((scan themedProfile.document).1.lastMember? "theme").bind Tree.value? := by
  have hmade : capitalIndex.Made := .advanced (by rintro _ ⟨⟩) _ _
  have hfloat : ∀ m ∈ themedProfile.extra.entries, m.2.FloatFree :=
    List.forall_mem_singleton.2 theme_floatFree
  obtain ⟨hindex, -, -, hprofile⟩ := reloading_loses_nothing
  obtain ⟨q, hparse, hq, hextra⟩ := hprofile _ _ themedProfile_parsed hfloat
    [[.setHead "Docs" (Cid.ofBytes [])], [.revoke "0x00" 1]]
  exact ⟨by decide +kernel, (hindex _ hmade).1, q, hparse, hq, hextra "theme" rfl⟩

end SignedNames
