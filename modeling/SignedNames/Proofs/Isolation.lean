import Mathlib
import SignedNames.Proofs.Frames
import SignedNames.Proofs.PublishedLinks
import SignedNames.Proofs.Reloading

/-!
# Namespaces and owners apart

All chains of a store share its bytes, and all namespaces of an owner share one profile, which is
written as a whole. A call still changes no more than what it names: one index, one head or one key
in the profile of its own owner. Everything else is read as before, whether the call has succeeded
or failed.
-/
namespace SignedNames

variable {σ : Type} {b : Backend σ}

/-- Profiles that differ in one head and one key at most. -/
structure Profile.DiffersAt (head? key? : Option String) (q q' : Profile) : Prop where
  heads : ∀ key, head? ≠ some key → q'.namespaces.get? key = q.namespaces.get? key
  keys : ∀ key, key? ≠ some key → q'.signingKeys.get? key = q.signingKeys.get? key
  rest : { q' with namespaces := q.namespaces, signingKeys := q.signingKeys } = q

namespace Profile.DiffersAt

variable {head? key? : Option String} {q : Profile}

lemma refl : DiffersAt head? key? q q := ⟨fun _ _ => rfl, fun _ _ => rfl, rfl⟩

lemma withHead (namespaceName : Option String) (found : Option NameIndex) :
    DiffersAt (namespaceName.map Text.lower) key? q (q.withHead namespaceName found) := by
  cases namespaceName with
  | none => exact .refl
  | some name =>
    cases found with
    | none => exact .refl
    | some i =>
      refine ⟨fun key hkey => ?_, fun _ _ => rfl, rfl⟩
      have hne : key ≠ Text.lower name := fun h => hkey (congrArg some h.symm)
      exact (NameMap.get?_insert ..).trans (if_neg hne)

lemma putKey (fingerprint : Address) (k : SigningKey) :
    DiffersAt head? (some fingerprint.text) q (q.putKey fingerprint k) := by
  refine ⟨fun _ _ => rfl, fun key hkey => ?_, rfl⟩
  have hne : key ≠ fingerprint.text := fun h => hkey (congrArg some h.symm)
  exact (NameMap.get?_insert ..).trans (if_neg hne)

lemma revoke {fingerprint : String} {time : UInt64} {q' : Profile}
    (h : q.revoke? fingerprint time = some q') :
    DiffersAt head? (some (Text.lower fingerprint)) q q' := by
  obtain ⟨keys, hkeys, rfl⟩ := Option.map_eq_some_iff.1 h
  obtain ⟨k, -, rfl⟩ := Option.map_eq_some_iff.1 hkeys
  refine ⟨fun _ _ => rfl, fun key hkey => ?_, rfl⟩
  have hne : key ≠ Text.lower fingerprint := fun h => hkey (congrArg some h.symm)
  exact (NameMap.get?_insert ..).trans (if_neg hne)

end Profile.DiffersAt

namespace Call

/-- An edit of one's own, which may change a profile in any way. -/
def IsUpdate : Call → Prop
  | updateProfile .. => True
  | _ => False

/-- The key of the head that the call brings up to date. -/
def head? (c : Call) : Option String := c.refreshed.map Text.lower

/-- The text of the key that the call registers or revokes. -/
def fingerprint? : Call → Option String
  | registerKey p validFrom validTo =>
    (p.signingKey validFrom validTo).fingerprint.toOption.map (·.text)
  | revokeKey _ fingerprint _ => some (Text.lower fingerprint)
  | _ => none

/-- A call that brings a head up to date edits nothing else, and one that edits a key leaves the
heads. -/
theorem edit_differsAt {c : Call} (h : ¬c.IsUpdate) (q : Profile) (found : Option NameIndex) :
    q.DiffersAt c.head? c.fingerprint? (c.edit (q.withHead c.refreshed found)) := by
  cases c with
  | registerKey p validFrom validTo =>
    change q.DiffersAt none _ (p.keyEdit validFrom validTo q)
    rw [Publisher.keyEdit]
    cases hfingerprint : (p.signingKey validFrom validTo).fingerprint with
    | error e => exact .refl
    | ok fingerprint =>
      rw [fingerprint?, hfingerprint]
      exact .putKey fingerprint _
  | revokeKey p fingerprint time =>
    change q.DiffersAt none _ ((q.revoke? fingerprint time).getD q)
    cases hrevoke : q.revoke? fingerprint time with
    | none => exact .refl
    | some revoked => exact .revoke hrevoke
  | updateProfile => exact absurd trivial h
  | _ => exact .withHead _ found

end Call

def Progress.Got (P : Option (Versioned Profile) → Prop) : Progress → Prop
  | .loaded base => P base
  | .ready base _ => P base
  | _ => True

/-- The edit of a record that the call has got is in the place of the record of the owner. -/
def Renewed (P : Option (Versioned Profile) → Prop) (owner : Address)
    (namespaceName : Option String) (edit : Profile → Profile) (records records' : Records) :
    Prop :=
  ∃ base found revision, P base ∧ records' = Function.update records owner
    (some ⟨edit ((profileOf base).withHead namespaceName found), revision⟩)

section

variable {holds : σ → Records → Prop} {admits : Profile → Prop} {records : Records} {α : Type}
  {owner : Address} {namespaceName : Option String} {edit : Profile → Profile}
  {tells : α → Option (Versioned Profile) → Prop} {progress : Progress} {s s' : σ}

/-- One request leaves the records as they are, or it is the swap that renews one, and the last
request of the call. -/
theorem Revises.served {P : Option (Versioned Profile) → Prop}
    (keeps : b.KeepsRecords holds admits) (hrecords : holds s records) (current : P (records owner))
    (admitted : ∀ base, P base → admits (profileOf base))
    (preserves : ∀ q, admits q → admits (edit q)) {r : Request} {next : r.Reply → Program α}
    (h : Revises owner namespaceName edit tells progress (.ask r next)) (hgot : progress.Got P) :
    ∃ records' progress', holds (b r s).2 records' ∧
      Revises owner namespaceName edit tells progress' (next (b r s).1) ∧ progress'.Got P ∧
      (records' = records ∨ (∃ record, progress' = .landed record) ∧
        Renewed P owner namespaceName edit records records') := by
  cases h with
  | other spares rest =>
    exact ⟨records, .apart, keeps.spares hrecords spares, rest _, trivial, .inl rfl⟩
  | load begun refused =>
    rw [keeps.load hrecords]
    refine ⟨records, _, hrecords, begun _, ?_, .inl rfl⟩
    cases namespaceName <;> exact current
  | @refresh name base next hname found refused =>
    have hstore := keeps.spares hrecords (r := .loadIndex owner name) trivial
    generalize b (.loadIndex owner name) s = outcome at hstore ⊢
    obtain ⟨e | i, store⟩ := outcome
    · exact ⟨records, .apart, hstore, refused e, trivial, .inl rfl⟩
    · exact ⟨records, .ready base i, hstore, found i, hgot, .inl rfl⟩
  | @swap base found profile next hprofile swapped lost refused =>
    subst hprofile
    have hadmits : admits (edit ((profileOf base).withHead namespaceName found)) :=
      preserves _ (keeps.admits_withHead (admitted base hgot) _ _)
    obtain ⟨records', hswaps, hstore⟩ :=
      keeps.swap hrecords owner (base.map (·.revision)) hadmits
    generalize b (.swapProfile owner (base.map (·.revision)) _) s = outcome at hswaps hstore ⊢
    obtain ⟨reply, store⟩ := outcome
    cases hswaps with
    | landed hit =>
      exact ⟨_, _, hstore, swapped, trivial, .inr ⟨⟨_, rfl⟩, base, found, _, hgot, rfl⟩⟩
    | lost now => exact ⟨records, .apart, hstore, lost now, trivial, .inl rfl⟩
    | failed e => exact ⟨records, .apart, hstore, refused e, trivial, .inl rfl⟩

/-- A call that goes by itself renews the record that there was, or none. -/
theorem Revises.goes (keeps : b.KeepsRecords holds admits) (hrecords : holds s records)
    (admitted : ∀ other, admits (profileOf (records other)))
    (preserves : ∀ q, admits q → admits (edit q)) {p : Program α} {result : α}
    (h : Revises owner namespaceName edit tells progress p)
    (hgot : progress.Got (· = records owner)) (hgoes : p.Goes b s result s') :
    ∃ records', holds s' records' ∧ (records' = records ∨
      Renewed (· = records owner) owner namespaceName edit records records') := by
  induction hgoes generalizing progress with
  | done result s => exact ⟨records, hrecords, .inl rfl⟩
  | @serve r next s s' result rest ih =>
    obtain ⟨records', progress', hstore, hrest, hgot', hchange⟩ :=
      h.served (P := (· = records owner)) keeps hrecords rfl
        (fun _ hbase => hbase ▸ admitted owner) preserves hgot
    rcases hchange with rfl | ⟨⟨record, rfl⟩, hrenewed⟩
    · exact ih hstore hrest hgot'
    · -- After the swap nothing is left to be asked.
      generalize next (b r s).1 = finished at rest hrest
      cases hrest
      cases rest
      exact ⟨records', hstore, .inr hrenewed⟩
  | refuse e _ ih => exact ih hrecords (h.refused e) trivial

end

/-- The store holds profiles that it admits, and no call has got any other. -/
structure Admitting (holds : σ → Records → Prop) (admits : Profile → Prop) (s : System σ) :
    Prop where
  records : ∃ records, holds s.store records ∧ ∀ owner, admits (profileOf (records owner))
  tasks : ∀ t ∈ s.tasks, t.call.Preserves admits ∧ ∃ progress : Progress,
    Revises t.call.owner t.call.refreshed t.call.edit t.call.Tells progress t.rest ∧
      progress.Got fun base => admits (profileOf base)

namespace Admitting

variable {holds : σ → Records → Prop} {admits : Profile → Prop} {s t : System σ}

theorem start {store : σ} {records : Records} (hstore : holds store records)
    (admitted : ∀ owner, admits (profileOf (records owner))) :
    Admitting holds admits (System.start store) :=
  ⟨⟨records, hstore, admitted⟩, fun _ ht => absurd ht List.not_mem_nil⟩

lemma replied (h : Admitting holds admits s) {store : σ} {task : Nat} {call : Call} {r : Request}
    {reply : r.Reply} {rest : Program (Except OperationError call.Answer)}
    (records : ∃ records, holds store records ∧ ∀ owner, admits (profileOf (records owner)))
    (preserves : call.Preserves admits) {progress : Progress}
    (hrevises : Revises call.owner call.refreshed call.edit call.Tells progress rest)
    (hgot : progress.Got fun base => admits (profileOf base)) :
    Admitting holds admits (s.replied store task call r reply rest) := by
  refine ⟨records, fun t ht => ?_⟩
  rcases List.mem_or_eq_of_mem_set ht with ht | rfl
  · exact h.tasks t ht
  · exact ⟨preserves, progress, hrevises, hgot⟩

theorem step (keeps : b.KeepsRecords holds admits) (h : Admitting holds admits s)
    (hstep : System.Step b s t) (preserves : ∀ state ∈ t.tasks, state.call.Preserves admits) :
    Admitting holds admits t := by
  cases hstep with
  | «begin» c fits =>
    refine ⟨h.records, fun t ht => ?_⟩
    have hpreserves := preserves t ht
    rcases List.mem_append.1 ht with ht | ht
    · exact h.tasks t ht
    · rw [List.mem_singleton] at ht
      subst ht
      exact ⟨hpreserves, .apart, c.revises, trivial⟩
  | @serve task call r next turn =>
    obtain ⟨hpreserves, progress, hrevises, hgot⟩ := h.tasks _ (List.mem_of_getElem? turn)
    obtain ⟨records, hrecords, hadmitted⟩ := h.records
    obtain ⟨records', progress', hstore, hrest, hgot', hchange⟩ :=
      hrevises.served keeps hrecords (hadmitted _) (fun _ => id) hpreserves hgot
    refine h.replied ⟨records', hstore, ?_⟩ hpreserves hrest hgot'
    rcases hchange with rfl | ⟨-, base, found, revision, hbase, rfl⟩
    · exact hadmitted
    · intro other
      rw [Function.update_apply]
      split
      · exact hpreserves _ (keeps.admits_withHead hbase _ _)
      · exact hadmitted other
  | refuse turn e =>
    obtain ⟨hpreserves, progress, hrevises, -⟩ := h.tasks _ (List.mem_of_getElem? turn)
    exact h.replied h.records hpreserves (hrevises.refused e) trivial

theorem run (keeps : b.KeepsRecords holds admits) (h : Admitting holds admits s)
    (hrun : System.Run b s t) (preserves : ∀ state ∈ t.tasks, state.call.Preserves admits) :
    Admitting holds admits t := by
  induction hrun with
  | refl => exact h
  | tail _ hstep ih =>
    exact (ih (System.forall_call_of_step preserves hstep)).step keeps hstep preserves

end Admitting

/-- A call has changed nothing but what it names. -/
structure Call.Confined (b : Backend σ) (c : Call) (s s' : σ) : Prop where
  /-- No bytes are taken away or altered. -/
  bytes : ∀ cid bs, b (.get cid) s = (.ok bs, s) → b (.get cid) s' = (.ok bs, s')
  /-- Every index has stayed but the one that the call may swap. -/
  index : ∀ owner namespaceName, c.key? ≠ some (owner, Text.lower namespaceName) →
    (Program.ask (.loadIndex owner namespaceName) .done).SameAt b s s'
  resolve : ∀ owner namespaceName name, c.key? ≠ some (owner, Text.lower namespaceName) →
    (Reader.resolve owner namespaceName name).program.SameAt b s s'
  links : ∀ limit owner namespaceName, c.key? ≠ some (owner, Text.lower namespaceName) →
    (Reader.links limit owner namespaceName).program.SameAt b s s'
  history : ∀ limit owner namespaceName name, c.key? ≠ some (owner, Text.lower namespaceName) →
    (Reader.history limit owner namespaceName name).program.SameAt b s s'
  /-- The profiles of others have stayed. -/
  profile : ∀ owner, owner ≠ c.owner →
    (Program.ask (.loadProfile owner) .done).SameAt b s s'
  /-- In the profile of the call's owner no more has changed than one head and one key. -/
  own : ∃ before after, b (.loadProfile c.owner) s = (.ok before, s) ∧
    b (.loadProfile c.owner) s' = (.ok after, s') ∧
      (profileOf before).DiffersAt c.head? c.fingerprint? (profileOf after)

theorem Sound.confines {rep : σ → Contents → Prop} {k : Contents}
    {chains : Address × String → List Chunk} {holds : σ → Records → Prop} {admits : Profile → Prop}
    {s : System σ} (frames : b.Frames) (keeps : b.Keeps rep) (hrep : rep s.store k)
    (h : Sound k chains s) (keeps' : b.KeepsRecords holds admits)
    (hadmitting : Admitting holds admits s) {c : Call} (hupdate : ¬c.IsUpdate)
    (preserves : c.Preserves admits) {outcome : Except OperationError c.Answer} {store : σ}
    (hgoes : c.operation.program.Goes b s.store outcome store) : c.Confined b s.store store := by
  have bytes (cid : Cid) (bs : Bytes) (hget : b (.get cid) s.store = (.ok bs, s.store)) :
      b (.get cid) store = (.ok bs, store) := hgoes.get frames hget
  have index (owner : Address) (namespaceName : String)
      (hkey : c.key? ≠ some (owner, Text.lower namespaceName)) :
      (Program.ask (.loadIndex owner namespaceName) .done).SameAt b s.store store :=
    hgoes.loadIndex frames (Call.sparesIndex hkey)
  obtain ⟨records, hrecords, hadmitted⟩ := hadmitting.records
  refine ⟨bytes, index, ?_, ?_, ?_, ?_, ?_⟩
  · intro owner namespaceName name hkey
    obtain ⟨_, hanswers⟩ := Reader.exists_answers_resolve (h.shelved _) name
    exact hanswers.sameAt keeps hrep bytes (index _ _ hkey)
  · intro limit owner namespaceName hkey
    obtain ⟨_, hanswers⟩ := Reader.exists_answers_links (h.shelved _) limit
    exact hanswers.sameAt keeps hrep bytes (index _ _ hkey)
  · intro limit owner namespaceName name hkey
    obtain ⟨_, hanswers⟩ := Reader.exists_answers_links (h.shelved _) limit
    exact (Reader.answers_history hanswers name).sameAt keeps hrep bytes (index _ _ hkey)
  · exact fun owner howner => hgoes.loadProfile frames (Call.sparesProfile howner)
  · obtain ⟨records', hstore, hchange⟩ :=
      c.revises.goes keeps' hrecords hadmitted preserves trivial hgoes
    refine ⟨_, _, keeps'.load hrecords c.owner, keeps'.load hstore c.owner, ?_⟩
    rcases hchange with rfl | ⟨base, found, revision, rfl, rfl⟩
    · exact .refl
    · rw [Function.update_self]
      exact Call.edit_differsAt hupdate _ found

/-- The rows hold profiles, made as the code makes them, and nothing else. -/
structure Rows.HoldsProfiles (r : Rows) (initial : Records) : Prop where
  blobs : r.blobs = .empty
  indexes : r.indexes = .empty
  row : ∀ owner : Address, r.profiles.get? owner.text = (initial owner).map Versioned.row
  made : ∀ owner record, initial owner = some record → record.value.Made

namespace Rows.HoldsProfiles

variable {r : Rows} {initial : Records}

lemma represents (h : r.HoldsProfiles initial) : r.Represents .empty where
  blob cid := by rw [h.blobs]; rfl
  index owner key := by rw [h.indexes]; rfl
  normal := nofun

lemma holdsRecords (h : r.HoldsProfiles initial) : r.HoldsRecords initial :=
  ⟨h.row, fun owner record hrecord => (h.made owner record hrecord).storable⟩

lemma storable (h : r.HoldsProfiles initial) (owner : Address) :
    (profileOf (initial owner)).Storable := by
  cases hrecord : initial owner with
  | none => exact Profile.storable_empty
  | some record => exact (h.made owner record hrecord).storable

end Rows.HoldsProfiles

/-- Whatever calls were made before, in a store in memory and in one of rows that held nothing but
profiles at first: a call changes nothing but what it names, whether it succeeds or fails, and
whatever of its requests is refused. -/
theorem calls_confined_of_reachable {c : Call} (hupdate : ¬c.IsUpdate) :
    (∀ (m : Memory) (s : System Memory), m.blobs = .empty → m.indexes = .empty →
      System.Run Memory.backend (.start m) s → s.CollisionFree →
      ∀ outcome store, c.operation.program.Goes Memory.backend s.store outcome store →
        c.Confined Memory.backend s.store store) ∧
    ∀ (r : Rows) (initial : Records) (s : System Rows), r.HoldsProfiles initial →
      System.Run Rows.backend (.start r) s → s.CollisionFree →
      (∀ state ∈ s.tasks, state.call.KeepsStorable) →
      ∀ outcome store, c.operation.program.Goes Rows.backend s.store outcome store →
        c.Confined Rows.backend s.store store := by
  constructor
  · intro m s hblobs hindexes hrun hfree outcome store hgoes
    have hempty : m.contents = .empty := by
      rw [Memory.contents, hblobs, hindexes]
      rfl
    obtain ⟨k, chains, hrep, -, hsound⟩ :=
      (Sound.start m).run Memory.backend_keeps hempty hrun hfree
    have hstart : Admitting (fun m records => m.profiles.get? = records) (fun _ => True)
        (System.start m) := .start rfl fun _ => trivial
    have hadmitting := hstart.run Memory.keepsRecords hrun fun _ _ _ _ => trivial
    exact hsound.confines Memory.frames Memory.backend_keeps hrep Memory.keepsRecords hadmitting
      hupdate (fun _ _ => trivial) hgoes
  · intro r initial s hprofiles hrun hfree hstorable outcome store hgoes
    obtain ⟨k, chains, hrep, -, hsound⟩ :=
      (Sound.start r).run Rows.backend_keeps hprofiles.represents hrun hfree
    have hadmitting := (Admitting.start hprofiles.holdsRecords hprofiles.storable).run
      Rows.keepsRecords hrun fun state hstate => Call.preserves_storable (hstorable state hstate)
    refine hsound.confines Rows.frames Rows.backend_keeps hrep Rows.keepsRecords hadmitting hupdate
      (Call.preserves_storable ?_) hgoes
    cases c with
    | updateProfile => exact absurd trivial hupdate
    | _ => trivial

def themedRows : Rows :=
  { Rows.fresh with
    profiles := Table.empty.set samplePublisher.owner.text ⟨1, themedProfile.document⟩ }

lemma themedRows_holdsProfiles : themedRows.HoldsProfiles fun owner =>
    if samplePublisher.owner = owner then some ⟨themedProfile, 1⟩ else none where
  blobs := rfl
  indexes := rfl
  row owner := by
    rw [themedRows, Table.get?_set]
    simp only [Address.text_injective.eq_iff]
    split <;> rfl
  made owner record hrecord := by
    split at hrecord
    · cases hrecord
      exact .parsed themedProfile_parsed (List.forall_mem_singleton.2 theme_floatFree)
    · cases hrecord

/-- The publisher has appended to one namespace, and the profile has not followed yet. -/
def themedSystem : System Rows :=
  ((System.start themedRows).called sampleCall).schedule Rows.backend [0, 0, 0]

lemma themedSystem_run : System.Run Rows.backend (.start themedRows) themedSystem :=
  .head (.begin sampleCall sampleCall_fits) (System.run_schedule ..)

lemma themedSystem_collisionFree : themedSystem.CollisionFree := by
  have hbytes : themedSystem.storedBytes = [Chunk.bytes ⟨none, [sampleLink]⟩] := by decide +kernel
  exact System.collisionFree_of_singleton hbytes

lemma themedSystem_storable : ∀ state ∈ themedSystem.tasks, state.call.KeepsStorable := by
  refine System.forall_call_schedule _ ?_ _
  intro state hstate
  rw [List.mem_singleton.1 hstate]
  trivial

/-- An append to another namespace of the same owner, and a revocation that fails. -/
theorem sample_calls_confined :
    ¬(Call.append samplePublisher "Größe" [sampleLink]).IsUpdate ∧
      themedRows.HoldsProfiles (fun owner =>
        if samplePublisher.owner = owner then some ⟨themedProfile, 1⟩ else none) ∧
      System.Run Rows.backend (.start themedRows) themedSystem ∧ themedSystem.CollisionFree ∧
      (∀ state ∈ themedSystem.tasks, state.call.KeepsStorable) ∧
      (∃ outcome store, (Call.append samplePublisher "Größe" [sampleLink]).operation.program.Goes
          Rows.backend themedSystem.store outcome store ∧
        (Call.append samplePublisher "Größe" [sampleLink]).Confined Rows.backend
          themedSystem.store store) ∧
      System.Run Memory.backend (.start .empty) sampleSystem ∧ sampleSystem.CollisionFree ∧
      ∃ outcome store, outcome.isOk = false ∧
        (Call.revokeKey samplePublisher "0x00" 0).operation.program.Goes Memory.backend
          sampleSystem.store outcome store ∧
        (Call.revokeKey samplePublisher "0x00" 0).Confined Memory.backend sampleSystem.store
          store := by
  have hrows := Program.goes_run Rows.backend
    (Call.append samplePublisher "Größe" [sampleLink]).operation.program themedSystem.store
  have hmemory := Program.goes_run Memory.backend
    (Call.revokeKey samplePublisher "0x00" 0).operation.program sampleSystem.store
  exact ⟨id, themedRows_holdsProfiles, themedSystem_run, themedSystem_collisionFree,
    themedSystem_storable,
    ⟨_, _, hrows, (calls_confined_of_reachable id).2 _ _ _ themedRows_holdsProfiles
      themedSystem_run themedSystem_collisionFree themedSystem_storable _ _ hrows⟩,
    sampleSystem_run, sampleSystem_collisionFree, _, _, by decide +kernel, hmemory,
    (calls_confined_of_reachable id).1 _ _ rfl rfl sampleSystem_run sampleSystem_collisionFree
      _ _ hmemory⟩

end SignedNames
