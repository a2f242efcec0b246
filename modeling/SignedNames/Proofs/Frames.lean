import Mathlib
import SignedNames.Proofs.Reading
import SignedNames.Proofs.Store.Records

/-!
# What calls leave alone

A request changes one record at most, the one under its own key, and takes no bytes away. A program
changes no more than its requests do, whether they are served or refused, and so a reader who asks
about another namespace finds what was there before.
-/
namespace SignedNames

namespace Program

variable {σ α : Type} {b : Backend σ}

/-- How a program may go by itself. Each request is served, or refused before it reaches the
store. -/
inductive Goes (b : Backend σ) : Program α → σ → α → σ → Prop
  | done (result : α) (s : σ) : Goes b (.done result) s result s
  | serve {r : Request} {next : r.Reply → Program α} {s s' : σ} {result : α}
    (rest : Goes b (next (b r s).1) (b r s).2 result s') : Goes b (.ask r next) s result s'
  | refuse {r : Request} {next : r.Reply → Program α} {s s' : σ} {result : α} (e : StoreError)
    (rest : Goes b (next (.error e)) s result s') : Goes b (.ask r next) s result s'

theorem goes_run (b : Backend σ) (p : Program α) (s : σ) :
    p.Goes b s (p.run b s).1 (p.run b s).2 := by
  induction p generalizing s with
  | done result => exact .done result s
  | ask r next ih => exact .serve (ih _ _)

theorem Goes.related {R : σ → σ → Prop} {P : Request → Prop} (refl : ∀ s, R s s)
    (trans : ∀ s t u, R s t → R t u → R s u) (step : ∀ r s, P r → R s (b r s).2) {p : Program α}
    {s s' : σ} {result : α} (h : p.Goes b s result s') (hasks : p.Asks P) : R s s' := by
  induction h with
  | done result s => exact refl s
  | serve _ ih => exact trans _ _ _ (step _ _ hasks.1) (ih (hasks.2 _))
  | refuse e _ ih => exact ih (hasks.2 _)

/-- A program that only reads, with the same result in two states. -/
def SameAt (b : Backend σ) (p : Program α) (s s' : σ) : Prop :=
  ∃ result, p.run b s = (result, s) ∧ p.run b s' = (result, s')

lemma SameAt.left {p : Program α} {s s' : σ} (h : p.SameAt b s s') : p.SameAt b s s := by
  obtain ⟨result, hs, -⟩ := h
  exact ⟨result, hs, hs⟩

lemma SameAt.trans {p : Program α} {s t u : σ} (h : p.SameAt b s t) (h' : p.SameAt b t u) :
    p.SameAt b s u := by
  obtain ⟨result, hs, ht⟩ := h
  obtain ⟨result', ht', hu⟩ := h'
  have heq : result = result' := congrArg Prod.fst (ht.symm.trans ht')
  exact ⟨result, hs, heq ▸ hu⟩

end Program

namespace Request

def SparesIndex (key : Address × String) : Request → Prop
  | .swapIndex owner namespaceName .. => (owner, Text.lower namespaceName) ≠ key
  | _ => True

def SparesProfile (owner : Address) : Request → Prop
  | .swapProfile editor .. => editor ≠ owner
  | _ => True

lemma Quiet.sparesIndex {r : Request} (h : r.Quiet) (key : Address × String) :
    r.SparesIndex key := by
  cases r with
  | swapIndex => exact h.elim
  | _ => trivial

lemma SparesProfiles.sparesProfile {r : Request} (h : r.SparesProfiles) (owner : Address) :
    r.SparesProfile owner := by
  cases r with
  | swapProfile => exact h.elim
  | _ => trivial

end Request

/-- A store whose requests change nothing but what they are about. -/
structure Backend.Frames {σ : Type} (b : Backend σ) : Prop where
  /-- Bytes that can be fetched can be fetched ever after. -/
  get : ∀ (r : Request) (s : σ) (cid : Cid) (bs : Bytes), b (.get cid) s = (.ok bs, s) →
    b (.get cid) (b r s).2 = (.ok bs, (b r s).2)
  loadIndex : ∀ (owner : Address) (namespaceName : String) (r : Request) (s : σ),
    r.SparesIndex (owner, Text.lower namespaceName) →
      (Program.ask (.loadIndex owner namespaceName) .done).SameAt b s (b r s).2
  loadProfile : ∀ (owner : Address) (r : Request) (s : σ), r.SparesProfile owner →
    (Program.ask (.loadProfile owner) .done).SameAt b s (b r s).2

namespace Table

variable {κ α : Type} [DecidableEq κ] {t : Table κ α} {key : κ} {value : α}

lemma get?_setIfMissing_of_some (h : t.get? key = some value) (key' : κ) (new : α) :
    (t.setIfMissing key' new).get? key = some value := by
  rw [setIfMissing]
  split
  · exact h
  · rename_i hnone
    have hne : key' ≠ key := by
      rintro rfl
      rw [h] at hnone
      cases hnone
    rw [get?_set, if_neg hne, h]

lemma get?_set_of_ne {key' : κ} (h : key' ≠ key) (new : α) :
    (t.set key' new).get? key = t.get? key := by
  rw [get?_set, if_neg h]

end Table

namespace Memory

variable (m : Memory) {r : Request}

lemma get?_blobs_backend {cid : Cid} {bs : Bytes} (h : m.blobs.get? cid = some bs) (r : Request) :
    (backend r m).2.blobs.get? cid = some bs := by
  cases r with
  | put new => exact Table.get?_setIfMissing_of_some h _ _
  | get cid' => simp only [backend]; split <;> exact h
  | swapIndex owner namespaceName expected next =>
    simp only [backend, swapIndex]; split <;> exact h
  | swapProfile owner expected next => simp only [backend, swapProfile]; split <;> exact h
  | _ => exact h

lemma get?_indexes_backend {key : Address × String} (h : r.SparesIndex key) :
    (backend r m).2.indexes.get? key = m.indexes.get? key := by
  cases r with
  | get cid => simp only [backend]; split <;> rfl
  | swapIndex owner namespaceName expected next =>
    simp only [backend, swapIndex]
    split
    · exact Table.get?_set_of_ne h next
    · rfl
  | swapProfile owner expected next => simp only [backend, swapProfile]; split <;> rfl
  | _ => rfl

lemma get?_profiles_backend {owner : Address} (h : r.SparesProfile owner) :
    (backend r m).2.profiles.get? owner = m.profiles.get? owner := by
  cases r with
  | swapProfile editor expected next =>
    simp only [backend, swapProfile]
    split
    · exact Table.get?_set_of_ne h _
    · rfl
  | _ =>
    rw [profiles_backend]
    trivial

theorem frames : backend.Frames where
  get r m cid bs h := by
    have hblob : m.blobs.get? cid = some bs := by
      simp only [backend] at h
      split at h
      · rename_i found hfound
        cases h
        exact hfound
      · cases h
    have hstays := m.get?_blobs_backend hblob r
    generalize (backend r m).2 = m' at hstays
    simp only [backend, hstays]
  loadIndex owner namespaceName r m h :=
    ⟨_, rfl, congrArg (fun found => (Except.ok found, (backend r m).2)) (m.get?_indexes_backend h)⟩
  loadProfile owner r m h :=
    ⟨_, rfl, congrArg (fun found => (Except.ok found, (backend r m).2)) (m.get?_profiles_backend h)⟩

end Memory

namespace Rows

variable (r : Rows) {request : Request}

lemma get?_blobs_backend {cid : String} {bs : Bytes} (h : r.blobs.get? cid = some bs)
    (request : Request) : (backend request r).2.blobs.get? cid = some bs := by
  cases request with
  | put new => exact Table.get?_setIfMissing_of_some h _ _
  | get cid' => simp only [backend]; split <;> exact h
  | swapIndex owner namespaceName expected next =>
    simp only [backend, swapIndex]; split <;> exact h
  | swapProfile owner expected next =>
    simp only [backend, swapProfile]
    split
    · exact h
    · exact h
    · split <;> exact h
  | _ => exact h

lemma get?_indexes_backend {owner : Address} {key : String} (h : request.SparesIndex (owner, key)) :
    (backend request r).2.indexes.get? (owner.text, key) = r.indexes.get? (owner.text, key) := by
  cases request with
  | get cid => simp only [backend]; split <;> rfl
  | swapIndex other namespaceName expected next =>
    simp only [backend, swapIndex]
    split
    · refine Table.get?_set_of_ne (fun hkey => h ?_) _
      obtain ⟨howner, hkey⟩ := Prod.mk.inj hkey
      exact Prod.ext (Address.text_injective howner) hkey
    · rfl
  | swapProfile other expected next =>
    simp only [backend, swapProfile]
    split
    · rfl
    · rfl
    · split <;> rfl
  | _ => rfl

lemma get?_profiles_backend {owner : Address} (h : request.SparesProfile owner) :
    (backend request r).2.profiles.get? owner.text = r.profiles.get? owner.text := by
  cases request with
  | swapProfile editor expected next =>
    simp only [backend, swapProfile]
    split
    · rfl
    · rfl
    · split
      · exact Table.get?_set_of_ne (fun howner => h (Address.text_injective howner)) _
      · rfl
  | _ =>
    rw [(profiles_backend _ r).1]
    trivial

theorem frames : backend.Frames where
  get request r cid bs h := by
    have hblob : r.blobs.get? cid.text = some bs := by
      simp only [backend] at h
      split at h
      · rename_i found hfound
        cases h
        exact hfound
      · cases h
    have hstays := r.get?_blobs_backend hblob request
    generalize (backend request r).2 = r' at hstays
    simp only [backend, hstays]
  loadIndex owner namespaceName request r h := by
    refine ⟨_, rfl, Prod.ext ?_ rfl⟩
    change readIndex _ owner namespaceName = readIndex _ owner namespaceName
    rw [readIndex, readIndex, indexKey, r.get?_indexes_backend h]
  loadProfile owner request r h := by
    refine ⟨_, rfl, Prod.ext ?_ rfl⟩
    change readProfile _ owner = readProfile _ owner
    rw [readProfile, readProfile, r.get?_profiles_backend h]

end Rows

section

variable {σ α : Type} {b : Backend σ} {p : Program α} {s s' : σ} {result : α}

theorem Program.Goes.get (frames : b.Frames) (h : p.Goes b s result s') {cid : Cid} {bs : Bytes}
    (hget : b (.get cid) s = (.ok bs, s)) : b (.get cid) s' = (.ok bs, s') := by
  induction h with
  | done => exact hget
  | serve _ ih => exact ih (frames.get _ _ _ _ hget)
  | refuse _ _ ih => exact ih hget

theorem Program.Goes.loadIndex (frames : b.Frames) {owner : Address} {namespaceName : String}
    (h : p.Goes b s result s')
    (hasks : p.Asks (Request.SparesIndex (owner, Text.lower namespaceName))) :
    (Program.ask (.loadIndex owner namespaceName) .done).SameAt b s s' :=
  h.related (fun s => (frames.loadIndex owner namespaceName (.loadIndex owner namespaceName) s
    trivial).left) (fun _ _ _ => .trans) (frames.loadIndex owner namespaceName) hasks

theorem Program.Goes.loadProfile (frames : b.Frames) {owner : Address} (h : p.Goes b s result s')
    (hasks : p.Asks (Request.SparesProfile owner)) :
    (Program.ask (.loadProfile owner) .done).SameAt b s s' :=
  h.related (fun s => (frames.loadProfile owner (.loadProfile owner) s trivial).left)
    (fun _ _ _ => .trans) (frames.loadProfile owner) hasks

variable {rep : σ → Contents → Prop} {k : Contents}

lemma Reads.run_of_stays (keeps : b.Keeps rep) (hrep : rep s k)
    (stays : ∀ cid bs, b (.get cid) s = (.ok bs, s) → b (.get cid) s' = (.ok bs, s'))
    (h : Reads k p result) : p.run b s' = (result, s') := by
  induction h with
  | done result => rfl
  | @get cid _ _ _ found _ ih =>
    have hget := keeps.get hrep cid
    rw [Contents.get_of_blob? found] at hget
    rw [Program.run, stays _ _ hget]
    exact ih

theorem Answers.sameAt (keeps : b.Keeps rep) (hrep : rep s k)
    (stays : ∀ cid bs, b (.get cid) s = (.ok bs, s) → b (.get cid) s' = (.ok bs, s'))
    {owner : Address} {namespaceName : String}
    (hindex : (Program.ask (.loadIndex owner namespaceName) .done).SameAt b s s')
    (h : Answers k owner namespaceName p result) : p.SameAt b s s' := by
  refine ⟨result, h.run keeps hrep, ?_⟩
  obtain ⟨next, rfl, hnext⟩ := h
  obtain ⟨reply, hs, hs'⟩ := hindex
  have hload : reply = .ok (k.index? (owner, Text.lower namespaceName)) :=
    congrArg Prod.fst (hs.symm.trans (keeps.loadIndex hrep owner namespaceName))
  have hload' : b (.loadIndex owner namespaceName) s' = (reply, s') := hs'
  rw [Program.run, hload', hload]
  exact hnext.run_of_stays keeps hrep stays

end

namespace Publisher

variable (p : Publisher) {key : Address × String} {namespaceName : String}

theorem appendTimes_sparesIndex (hkey : (p.owner, Text.lower namespaceName) ≠ key)
    (links : List Link) (attempts : Nat) (observed : Option NameIndex) :
    (p.appendTimes namespaceName links attempts observed).program.Asks
      (Request.SparesIndex key) := by
  induction attempts generalizing observed with
  | zero => trivial
  | succ attempts ih =>
    rw [appendTimes, Operation.program_putChunk_bind]
    refine ⟨trivial, fun reply => ?_⟩
    cases reply with
    | error e => trivial
    | ok cid =>
      beta_reduce
      rw [Operation.after_mapError_ok, Operation.program_ask_bind]
      refine ⟨hkey, fun reply => ?_⟩
      rcases reply with e | _ | current
      · trivial
      · refine Operation.asks_bind ?_ fun synced => trivial
        refine Program.Asks.bind ?_ fun outcome => trivial
        exact (p.syncProfile_quiet namespaceName).mono fun r hr => hr.sparesIndex key
      · exact ih current

theorem append_sparesIndex (hkey : (p.owner, Text.lower namespaceName) ≠ key) (links : List Link) :
    (p.append namespaceName links).program.Asks (Request.SparesIndex key) := by
  rw [append]
  split
  · trivial
  · refine Operation.asks_bind (o := Operation.check _) trivial fun _ => ?_
    rw [Operation.program_ask_bind]
    refine ⟨trivial, fun reply => ?_⟩
    cases reply with
    | error e => trivial
    | ok observed => exact p.appendTimes_sparesIndex hkey links _ observed

end Publisher

lemma Access.appendOnce_sparesIndex {owner : Address} {namespaceName : String}
    {key : Address × String} (hkey : (owner, Text.lower namespaceName) ≠ key) (links : List Link) :
    (Operation.access (appendOnce owner namespaceName links)).program.Asks
      (Request.SparesIndex key) := by
  rw [appendOnce, Operation.program_access_bind]
  refine ⟨trivial, fun reply => ?_⟩
  cases reply with
  | error e => trivial
  | ok current =>
    rw [Operation.afterReply, Operation.program_access_putChunk]
    refine ⟨trivial, fun reply => ?_⟩
    cases reply with
    | error e => trivial
    | ok cid =>
      rw [Operation.afterReply, Operation.program_access_bind]
      refine ⟨hkey, fun reply => ?_⟩
      rcases reply with e | _ | now <;> trivial

lemma Revises.sparesProfile {α : Type} {owner : Address} {namespaceName : Option String}
    {edit : Profile → Profile} {tells : α → Option (Versioned Profile) → Prop}
    {progress : Progress} {p : Program α}
    (h : Revises owner namespaceName edit tells progress p) {other : Address}
    (hother : other ≠ owner) : p.Asks (Request.SparesProfile other) := by
  induction h with
  | done => trivial
  | other spares _ ih => exact ⟨spares.sparesProfile other, ih⟩
  | load _ _ begun refused =>
    exact ⟨trivial, fun reply => reply.rec refused begun⟩
  | refresh _ _ _ found refused => exact ⟨trivial, fun reply => reply.rec refused found⟩
  | swap _ _ _ _ swapped lost refused =>
    exact ⟨hother.symm, fun reply => reply.rec refused fun outcome => outcome.rec swapped lost⟩

namespace Call

def key? (c : Call) : Option (Address × String) := c.batch?.map Batch.key

variable {c : Call}

theorem sparesIndex {key : Address × String} (h : c.key? ≠ some key) :
    c.operation.program.Asks (Request.SparesIndex key) := by
  cases hbatch : c.batch? with
  | none => exact (Call.quiet hbatch).mono fun r hr => hr.sparesIndex key
  | some w =>
    have hkey : w.key ≠ key := by simpa [key?, hbatch] using h
    cases c with
    | append p namespaceName links =>
      cases hbatch
      exact p.append_sparesIndex hkey links
    | publish p namespaceName d time nonce =>
      cases hsign : p.sign d time nonce with
      | error e => simp [batch?, hsign] at hbatch
      | ok link =>
        have hw : w = ⟨p.owner, namespaceName, [link]⟩ := by simpa [batch?, hsign] using hbatch.symm
        subst hw
        rw [operation, Publisher.publish, hsign]
        refine Operation.asks_bind (by trivial) fun _ => ?_
        exact Operation.asks_bind (p.append_sparesIndex hkey _) fun _ => trivial
    | rival owner namespaceName links =>
      cases hbatch
      exact Access.appendOnce_sparesIndex hkey links
    | _ => simp [batch?] at hbatch

theorem sparesProfile {owner : Address} (h : owner ≠ c.owner) :
    c.operation.program.Asks (Request.SparesProfile owner) :=
  c.revises.sparesProfile h

end Call
end SignedNames
