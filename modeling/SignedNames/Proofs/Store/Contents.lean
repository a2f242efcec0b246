import Mathlib
import SignedNames.Store.Memory

/-!
# What a store holds

The bytes and the indexes that a store holds, without regard to how they are kept. Profiles are left
out: nothing that is said about chunks and indexes depends on them.
-/
namespace SignedNames

def NameIndex.Normal (i : NameIndex) : Prop := ∀ e ∈ i.entries.entries, Text.lower e.1 = e.1

/-- A request that leaves bytes and indexes as they are. -/
def Request.Quiet : Request → Prop
  | .put _ => False
  | .swapIndex .. => False
  | _ => True

structure Contents where
  blob? : Cid → Option Bytes
  /-- Indexes by owner and namespace in lower case. -/
  index? : Address × String → Option NameIndex

namespace Contents

def empty : Contents := ⟨fun _ => none, fun _ => none⟩

def put (k : Contents) (bs : Bytes) : Contents :=
  { k with
    blob? := fun cid => if Cid.ofBytes bs = cid then (k.blob? cid).or (some bs) else k.blob? cid }

def get (k : Contents) (cid : Cid) : Except StoreError Bytes :=
  match k.blob? cid with
  | some bs => .ok bs
  | none => .error (.notFound cid)

def setIndex (k : Contents) (key : Address × String) (i : NameIndex) : Contents :=
  { k with index? := fun other => if key = other then some i else k.index? other }

def swap (k : Contents) (key : Address × String) (expected : Option Cid) (next : NameIndex) :
    Swap NameIndex × Contents :=
  if (k.index? key).map (·.head) = expected then (.swapped, k.setIndex key next)
  else (.conflict (k.index? key), k)

@[simp] theorem put_index? (k : Contents) (bs : Bytes) : (k.put bs).index? = k.index? := by
  simp only [put]

theorem get_of_blob? {k : Contents} {cid : Cid} {bs : Bytes} (h : k.blob? cid = some bs) :
    k.get cid = .ok bs := by
  rw [get, h]

theorem blob?_put_of_blob? {k : Contents} {cid : Cid} {bs : Bytes} (h : k.blob? cid = some bs)
    (new : Bytes) : (k.put new).blob? cid = some bs := by
  by_cases hcid : Cid.ofBytes new = cid <;> simp [put, hcid, h]

theorem blob?_put_eq_some {k : Contents} {cid : Cid} {bs new : Bytes}
    (h : (k.put new).blob? cid = some bs) :
    k.blob? cid = some bs ∨ Cid.ofBytes new = cid ∧ new = bs := by
  by_cases hcid : Cid.ofBytes new = cid
  · cases hk : k.blob? cid <;> simp_all [put]
  · left
    simpa [put, hcid] using h

theorem blob?_put_self (k : Contents) (bs : Bytes) :
    (k.put bs).blob? (Cid.ofBytes bs) = (k.blob? (Cid.ofBytes bs)).or (some bs) := by
  simp [put]

end Contents

/-- A store whose states stand for contents, as a relation says, and that answers accordingly. An
index is only asked for in the form in which publishers write it. -/
structure Backend.Keeps {σ : Type} (b : Backend σ) (rep : σ → Contents → Prop) : Prop where
  put : ∀ {s k}, rep s k → ∀ bs,
    (b (.put bs) s).1 = .ok (Cid.ofBytes bs) ∧ rep (b (.put bs) s).2 (k.put bs)
  get : ∀ {s k}, rep s k → ∀ cid, b (.get cid) s = (k.get cid, s)
  loadIndex : ∀ {s k}, rep s k → ∀ owner namespaceName,
    b (.loadIndex owner namespaceName) s = (.ok (k.index? (owner, Text.lower namespaceName)), s)
  swapIndex : ∀ {s k}, rep s k → ∀ owner namespaceName expected {next : NameIndex}, next.Normal →
    ∀ {outcome k'}, k.swap (owner, Text.lower namespaceName) expected next = (outcome, k') →
      (b (.swapIndex owner namespaceName expected next) s).1 = .ok outcome ∧
        rep (b (.swapIndex owner namespaceName expected next) s).2 k'
  quiet : ∀ {s k}, rep s k → ∀ r : Request, r.Quiet → rep (b r s).2 k

namespace Memory

def contents (m : Memory) : Contents := ⟨m.blobs.get?, m.indexes.get?⟩

theorem contents_empty : empty.contents = .empty := rfl

lemma contents_setIfMissing (m : Memory) (bs : Bytes) :
    contents { m with blobs := m.blobs.setIfMissing (Cid.ofBytes bs) bs } = m.contents.put bs := by
  simp only [contents, Contents.put, Contents.mk.injEq, and_true]
  funext cid
  by_cases hcid : Cid.ofBytes bs = cid
  · subst hcid
    cases h : m.blobs.get? (Cid.ofBytes bs) <;> simp [Table.setIfMissing, h, Table.get?_set]
  · cases h : m.blobs.get? (Cid.ofBytes bs) <;>
      simp [Table.setIfMissing, h, Table.get?_set, hcid]

lemma contents_setIndex (m : Memory) (key : Address × String) (i : NameIndex) :
    contents { m with indexes := m.indexes.set key i } = m.contents.setIndex key i := by
  simp only [contents, Contents.setIndex, Contents.mk.injEq, true_and]
  funext other
  exact Table.get?_set ..

theorem backend_keeps : Backend.Keeps backend fun m k => m.contents = k where
  put := by
    rintro m _ rfl bs
    exact ⟨rfl, m.contents_setIfMissing bs⟩
  get := by
    rintro m _ rfl cid
    simp only [backend, Contents.get, contents]
    cases m.blobs.get? cid <;> rfl
  loadIndex := by
    rintro m _ rfl owner namespaceName
    rfl
  swapIndex := by
    rintro m _ rfl owner namespaceName expected next - outcome k' hswap
    have hread : m.contents.index? (owner, Text.lower namespaceName) =
        m.index? owner namespaceName := rfl
    simp only [Contents.swap, hread] at hswap
    by_cases h : (m.index? owner namespaceName).map (·.head) = expected
    · rw [if_pos h] at hswap
      cases hswap
      simp only [backend, swapIndex, if_pos h, true_and]
      exact m.contents_setIndex _ next
    · rw [if_neg h] at hswap
      cases hswap
      simp only [backend, swapIndex, if_neg h, and_self]
  quiet := by
    rintro m _ rfl r hr
    cases r with
    | put => exact hr.elim
    | swapIndex => exact hr.elim
    | get cid => simp only [backend]; split <;> rfl
    | swapProfile owner expected next => simp only [backend, swapProfile]; split <;> rfl
    | _ => rfl

end Memory
end SignedNames
