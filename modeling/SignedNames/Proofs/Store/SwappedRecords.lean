import Mathlib
import SignedNames.Proofs.IndexedChains
import SignedNames.Proofs.Store.Records

/-!
# Records that were swapped in

A swap that lands leaves the new record in its place, at the revision after the expected one. A
store in memory gives the record back as it got it, a store of rows as its document is read: with
names in lower case.
-/
namespace SignedNames
open Json

lemma Json.Value.Within.floatFree {depth : Nat} {v : Value} (h : v.Within depth) : v.FloatFree := by
  induction h with
  | null => exact .null
  | bool depth b => exact .bool b
  | natural depth n => exact .natural n
  | negative depth h => exact .negative _
  | text depth s => exact .text s
  | array h ih => exact .array ih
  | object h ih => exact .object ih

namespace Profile

/-- The other members have values that can be written, whatever their names are. -/
def PlainExtra (p : Profile) : Prop :=
  ∀ m ∈ p.extra.entries, m.2.Within (nestingLimit - 1) ∧ m.2.Ordered

/-- No other member goes by a name that profiles declare. -/
def ExtraUndeclared (p : Profile) : Prop := ∀ m ∈ p.extra.entries, Undeclared m.1

variable {p : Profile}

lemma PlainExtra.storableMember (h : p.PlainExtra) (hnames : p.ExtraUndeclared) :
    ∀ m ∈ p.extra.entries, StorableMember m :=
  fun m hm => ⟨hnames m hm, (h m hm).1, (h m hm).2⟩

/-- Exactly the profiles with keys in lower case and other members of other names are read back. -/
theorem PlainExtra.parse_document_iff (h : p.PlainExtra) :
    Profile.parse p.document = .ok p ↔ p.Normal ∧ p.ExtraUndeclared := by
  constructor
  · intro hparse
    have hstorable := storable_of_parse hparse fun m hm => (h m hm).1.floatFree
    exact ⟨⟨hstorable.namespaces, hstorable.signingKeys⟩,
      fun m hm => (hstorable.extra m hm).undeclared⟩
  · rintro ⟨hnormal, hnames⟩
    rw [parse_document_normalized (h.storableMember hnames), normalized_eq_self_iff.2 hnormal]

end Profile

namespace Memory

variable {m m' : Memory} {owner : Address}

theorem loadProfile_of_swapped {expected : Option Nat} {next : Profile}
    (h : backend (.swapProfile owner expected next) m = (.ok .swapped, m')) :
    backend (.loadProfile owner) m' = (.ok (some ⟨next, expected.getD 0 + 1⟩), m') := by
  simp only [backend, swapProfile] at h
  split at h
  · cases h
    simp only [backend, Table.get?_set, if_true, nextRevision]
  · cases h

theorem loadIndex_of_swapped {namespaceName : String} {expected : Option Cid} {next : NameIndex}
    (h : backend (.swapIndex owner namespaceName expected next) m = (.ok .swapped, m')) :
    backend (.loadIndex owner namespaceName) m' = (.ok (some next), m') := by
  simp only [backend, swapIndex] at h
  split at h
  · cases h
    simp only [backend, index?, Table.get?_set, if_true]
  · cases h

end Memory

namespace Rows

variable {r r' : Rows} {owner : Address}

lemma eq_of_storable {revision : Nat} {n : Int} (h : storable revision = .ok n) : n = revision := by
  rw [storable] at h
  split at h
  · cases h
    rfl
  · cases h

theorem loadProfile_of_swapped {expected : Option Nat} {next : Profile}
    (h : backend (.swapProfile owner expected next) r = (.ok .swapped, r')) :
    backend (.loadProfile owner) r' =
      (((Profile.parse next.document).map fun p => some ⟨p, expected.getD 0 + 1⟩).mapError
        .unreadable, r') := by
  simp only [backend, swapProfile] at h
  split at h
  · cases h
  · cases h
  · rename_i wanted successor hwanted hsuccessor
    split at h
    · cases h
      obtain rfl := eq_of_storable hsuccessor
      have hnonneg : ¬ ((expected.getD 0 + 1 : Nat) : Int) < 0 := by omega
      simp only [backend, readProfile, Table.get?_set, if_true, if_neg hnonneg, Int.toNat_natCast]
    · obtain ⟨_, hread, hconflict⟩ := exists_of_map_eq_ok (congrArg Prod.fst h)
      cases hconflict

theorem loadIndex_of_swapped {namespaceName : String} {expected : Option Cid} {next : NameIndex}
    (h : backend (.swapIndex owner namespaceName expected next) r = (.ok .swapped, r')) :
    backend (.loadIndex owner namespaceName) r' = (.ok (some next.normalized), r') := by
  simp only [backend, swapIndex] at h
  split at h
  · cases h
    simp only [backend, readIndex, Table.get?_set, if_true, NameIndex.parse_document_normalized]
    rfl
  · obtain ⟨_, hread, hconflict⟩ := exists_of_map_eq_ok (congrArg Prod.fst h)
    cases hconflict

end Rows

/-- What was swapped into a store is loaded from it at the next revision, in the form that the store
keeps it in. -/
structure Backend.ReadsBack {σ : Type} (b : Backend σ) (takes : Profile → Prop)
    (kept : Profile → Profile) (keptIndex : NameIndex → NameIndex) : Prop where
  profile : ∀ {s s' : σ} {owner : Address} {expected : Option Nat} {next : Profile}, takes next →
    b (.swapProfile owner expected next) s = (.ok .swapped, s') →
      b (.loadProfile owner) s' = (.ok (some ⟨kept next, expected.getD 0 + 1⟩), s')
  index : ∀ {s s' : σ} {owner : Address} {namespaceName : String} {expected : Option Cid}
    {next : NameIndex}, b (.swapIndex owner namespaceName expected next) s = (.ok .swapped, s') →
      b (.loadIndex owner namespaceName) s' = (.ok (some (keptIndex next)), s')

namespace Backend.ReadsBack

variable {σ : Type} {b : Backend σ} {takes : Profile → Prop} {kept : Profile → Profile}
  {keptIndex : NameIndex → NameIndex}

theorem updateProfile (h : b.ReadsBack takes kept keptIndex) {p : Publisher}
    {edit : Profile → Profile} {edited : Edited Unit} {s s' : σ}
    (htakes : takes edited.profile.value)
    (hrun : (p.updateProfile edit).run b s = (.ok edited, s')) :
    b (.loadProfile p.owner) s' =
      (.ok (some ⟨kept edited.profile.value, edited.profile.revision⟩), s') := by
  obtain ⟨s₀, expected, hswap, hrevision⟩ := Publisher.exists_swapped_of_editProfileTimes hrun
  rw [h.profile htakes hswap, hrevision]

end Backend.ReadsBack

namespace Memory

theorem readsBack : backend.ReadsBack (fun _ => True) id id where
  profile _ hswap := loadProfile_of_swapped hswap
  index hswap := loadIndex_of_swapped hswap

end Memory

namespace Rows

theorem readsBack :
    backend.ReadsBack (fun p => p.PlainExtra ∧ p.ExtraUndeclared) Profile.normalized
      NameIndex.normalized where
  profile htakes hswap := by
    rw [loadProfile_of_swapped hswap,
      Profile.parse_document_normalized (htakes.1.storableMember htakes.2)]
    rfl
  index hswap := loadIndex_of_swapped hswap

end Rows

/-- A store in memory gives back whatever was swapped in, and so does a store of rows with names in
lower case: of profiles, those with other members that can be written and are under no name that
profiles declare. Records with names in lower case come back as they were. -/
theorem stores_read_back :
    Memory.backend.ReadsBack (fun _ => True) id id ∧
      Rows.backend.ReadsBack (fun p => p.PlainExtra ∧ p.ExtraUndeclared) Profile.normalized
        NameIndex.normalized ∧
      (∀ p : Profile, p.normalized = p ↔ p.Normal) ∧
      (∀ i : NameIndex, i.normalized = i ↔ i.Normal) ∧
      ∀ (p : Publisher) (edit : Profile → Profile) (edited : Edited Unit),
        (∀ m m' : Memory, (p.updateProfile edit).run Memory.backend m = (.ok edited, m') →
          Memory.backend (.loadProfile p.owner) m' = (.ok (some edited.profile), m')) ∧
        (edited.profile.value.PlainExtra → edited.profile.value.ExtraUndeclared →
          ∀ r r' : Rows, (p.updateProfile edit).run Rows.backend r = (.ok edited, r') →
            Rows.backend (.loadProfile p.owner) r' =
              (.ok (some ⟨edited.profile.value.normalized, edited.profile.revision⟩), r')) := by
  refine ⟨Memory.readsBack, Rows.readsBack, fun _ => Profile.normalized_eq_self_iff,
    fun _ => NameIndex.normalized_eq_self_iff, fun p edit edited => ⟨?_, ?_⟩⟩
  · exact fun m m' hrun => Memory.readsBack.updateProfile trivial hrun
  · exact fun hplain hnames r r' hrun => Rows.readsBack.updateProfile ⟨hplain, hnames⟩ hrun

/-- A profile with a namespace that is not in lower case, and a member that profiles do not
declare. -/
def capitalProfile : Profile :=
  { Profile.empty with
    namespaces := .ofList [("Docs", Cid.ofBytes [])]
    extra := .ofList [("theme", .text "dark")] }

theorem capitalProfile_read_back :
    ∃ edited r, (samplePublisher.updateProfile fun _ => capitalProfile).run Rows.backend .fresh =
        (.ok edited, r) ∧
      edited.profile = ⟨capitalProfile, 1⟩ ∧
      Rows.backend (.loadProfile samplePublisher.owner) r =
        (.ok (some ⟨capitalProfile.normalized, 1⟩), r) ∧
      capitalProfile.normalized.namespaces.keys = ["docs"] ∧
      capitalProfile.normalized.extra = capitalProfile.extra := by
  obtain ⟨r, hrun⟩ : ∃ r, (samplePublisher.updateProfile fun _ => capitalProfile).run
      Rows.backend .fresh = (.ok ⟨⟨capitalProfile, 1⟩, (), 1⟩, r) := ⟨_, rfl⟩
  have hplain : capitalProfile.PlainExtra := List.forall_mem_singleton.2 ⟨.text .., .text ..⟩
  have hnames : capitalProfile.ExtraUndeclared := List.forall_mem_singleton.2 rfl
  obtain ⟨-, -, -, -, hupdates⟩ := stores_read_back
  have hload := (hupdates _ _ _).2 hplain hnames _ _ hrun
  exact ⟨_, r, hrun, rfl, hload, by decide +kernel, rfl⟩

/-- Another member by the name of the namespaces. -/
def clashingProfile : Profile :=
  { Profile.empty with extra := .ofList [("namespaces", .null)] }

lemma clashingProfile_plain : clashingProfile.PlainExtra :=
  List.forall_mem_singleton.2 ⟨.null _, .null⟩

lemma clashingProfile_unreadable :
    Profile.parse clashingProfile.document =
      .error (.document (.duplicateField "namespaces")) := by
  have hwithin : clashingProfile.value.Within nestingLimit := by
    refine .object (List.forall_mem_cons.2 ⟨.object (List.forall_mem_nil _), ?_⟩)
    exact List.forall_mem_cons.2 ⟨.object (List.forall_mem_nil _),
      List.forall_mem_singleton.2 (.null _)⟩
  have hread : Profile.read clashingProfile.value.tree =
      .error (.duplicateField "namespaces") := rfl
  rw [Profile.parse, Profile.document, Json.parse, scan_render hwithin]
  simp only [hread]
  rfl

def capitalSample : NameIndex := ⟨Cid.ofBytes [], .ofList [("Docs", Cid.ofBytes [])]⟩

/-- An update is reported to have stored a profile that cannot be loaded, and an index is swapped in
that is loaded under another name. -/
theorem clashingProfile_stored :
    (∃ edited r, (samplePublisher.updateProfile fun _ => clashingProfile).run Rows.backend .fresh =
        (.ok edited, r) ∧ edited.profile = ⟨clashingProfile, 1⟩ ∧ clashingProfile.PlainExtra ∧
      Rows.backend (.loadProfile samplePublisher.owner) r =
        (.error (.unreadable (.document (.duplicateField "namespaces"))), r)) ∧
    ∃ r, Rows.backend (.swapIndex samplePublisher.owner "docs" none capitalSample) .fresh =
        (.ok .swapped, r) ∧
      Rows.backend (.loadIndex samplePublisher.owner "docs") r =
        (.ok (some capitalSample.normalized), r) ∧
      capitalSample.normalized.names = ["docs"] ∧ capitalSample.names = ["Docs"] := by
  constructor
  · obtain ⟨r, hrun⟩ : ∃ r, (samplePublisher.updateProfile fun _ => clashingProfile).run
        Rows.backend .fresh = (.ok ⟨⟨clashingProfile, 1⟩, (), 1⟩, r) := ⟨_, rfl⟩
    obtain ⟨s₀, expected, hswap, hrevision⟩ := Publisher.exists_swapped_of_editProfileTimes hrun
    refine ⟨_, r, hrun, rfl, clashingProfile_plain, ?_⟩
    exact (Rows.loadProfile_of_swapped hswap).trans (by rw [clashingProfile_unreadable]; rfl)
  · obtain ⟨r, hswap⟩ : ∃ r, Rows.backend (.swapIndex samplePublisher.owner "docs" none
        capitalSample) .fresh = (.ok .swapped, r) := ⟨_, rfl⟩
    exact ⟨r, hswap, Rows.loadIndex_of_swapped hswap, by decide +kernel, by decide +kernel⟩

end SignedNames
