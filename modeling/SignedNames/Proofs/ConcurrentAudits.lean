import Mathlib
import SignedNames.Proofs.Auditing
import SignedNames.Proofs.KeyLifecycle

/-!
# Audits while others publish

Verifying a namespace gets the profile first, then the index, and then the chain of chunks. Others
may go on in between, so that the profile may be older than the links that are verified against it.
Keys are reported as missing exactly if they had not been registered when the profile was loaded. So
a link that was appended after that may be reported as one without a key, although its key was
registered before the link was appended.
-/
namespace SignedNames

variable {σ : Type} {b : Backend σ}

/-- What verifying a namespace makes of the replies that it gets: a verdict on each link. -/
def Reader.conclude (settings : ReaderSettings) (c : Chain) :
    Except OperationError (Profile × List Link) → Except OperationError (List (Link × Verification))
  | .ok (profile, links) =>
    (Verifier.verifyAll settings.requireRegisteredKey c profile links).1.mapError .verify
  | .error e => .error e

theorem Reader.verifyNamespace_eq_conclude (settings : ReaderSettings) (b : Backend σ)
    (owner : Address) (namespaceName : String) (store : σ) (c : Chain) :
    (verifyNamespace settings b owner namespaceName store c).1 =
      conclude settings c ((audit settings.maxChainWalk owner namespaceName).run b store).1 := by
  rw [verifyNamespace]
  rcases (audit settings.maxChainWalk owner namespaceName).run b store with
    ⟨e | ⟨profile, links⟩, store⟩ <;> rfl

/-- An edit of one's own neither adds keys to a profile nor takes any away. -/
def Call.SparesKeys : Call → Prop
  | updateProfile _ edit => ∀ q signer, ((edit q).key? signer).isSome ↔ (q.key? signer).isSome
  | _ => True

/-- A call that registers a key in the profile of the owner under the address of the signer. -/
def Call.Registers (owner signer : Address) : Call → Prop
  | registerKey p validFrom validTo =>
    p.owner = owner ∧ (p.signingKey validFrom validTo).fingerprint = .ok signer
  | _ => False

namespace System

def HasRegistered (s : System σ) (owner signer : Address) : Prop :=
  ∃ (i : Nat) (call : Call) (answer : call.Answer),
    s.tasks[i]? = some ⟨call, .done (.ok answer)⟩ ∧ call.Registers owner signer

def RegisteredIn (s : System σ) (log : List Event) (owner signer : Address) : Prop :=
  ∃ r ∈ Log.revisionsAt log owner, ∃ c ∈ s.call? r.task, c.Registers owner signer

/-- Whenever something was appended to the namespace, the signers of its links had registered. -/
def KeysFirst (s : System σ) (owner : Address) (namespaceName : String) : Prop :=
  ∀ before e after l, s.events = before ++ e :: after → e.landing? = some l →
    l.key = (owner, Text.lower namespaceName) → ∀ w ∈ s.batch? l.task, ∀ link ∈ w.links,
      s.RegisteredIn before owner link.body.signerAddress

end System

/-- What is true of the verdicts of an audit that has got the profile in the system `u` and has come
to its end in the system `t`. -/
structure AuditedSince (u t : System σ) (owner : Address) (namespaceName : String)
    (entries : List (Link × Verification)) : Prop where
  /-- The signers whose keys are reported as missing are those who had not registered by then. -/
  missing : ∀ entry ∈ entries, entry.2.keyStatus = .notRegistered ↔
    ¬u.HasRegistered owner entry.1.body.signerAddress
  /-- Where signers register first, no key is missing of those of the links that were there. -/
  keysFirst : u.KeysFirst owner namespaceName → ∀ entry ∈ entries,
    entry.1 ∈ (u.committed (owner, Text.lower namespaceName)).flatten →
      entry.2.keyStatus ≠ .notRegistered
  /-- All of these links have their verdicts, after the ones that were appended later. -/
  complete : t.CollisionFree →
    (u.committed (owner, Text.lower namespaceName)).flatten.reverse <:+ entries.map Prod.fst

lemma Verifier.keyStatus_of_verifyAll {requireRegisteredKey : Bool} {c : Chain} {p : Profile}
    {links : List Link} {entries : List (Link × Verification)}
    (h : (verifyAll requireRegisteredKey c p links).1 = .ok entries) :
    entries.map Prod.fst = links ∧ ∀ entry ∈ entries,
      entry.2.keyStatus = p.keyStatus entry.1.body.signerAddress entry.1.body.signedAt := by
  induction links generalizing c entries with
  | nil =>
    cases h
    exact ⟨rfl, List.forall_mem_nil _⟩
  | cons l links ih =>
    rw [verifyAll] at h
    cases hl : verifyFor requireRegisteredKey c p l with
    | mk outcome c' =>
      rw [hl] at h
      cases outcome with
      | error e => cases h
      | ok v =>
        have hv := verifyFor_ok (congrArg Prod.fst hl)
        obtain ⟨more, hmore, rfl⟩ := Json.exists_of_map_eq_ok h
        obtain ⟨hlinks, hstatus⟩ := ih hmore
        exact ⟨congrArg (l :: ·) hlinks, List.forall_mem_cons.2 ⟨hv.2.1, hstatus⟩⟩

lemma Reader.keyStatus_of_conclude {settings : ReaderSettings} {c : Chain}
    {result : Except OperationError (Profile × List Link)} {entries : List (Link × Verification)}
    (h : conclude settings c result = .ok entries) :
    ∃ profile, result = .ok (profile, entries.map Prod.fst) ∧ ∀ entry ∈ entries,
      entry.2.keyStatus =
        profile.keyStatus entry.1.body.signerAddress entry.1.body.signedAt := by
  rcases result with e | ⟨profile, links⟩
  · cases h
  · obtain ⟨hlinks, hstatus⟩ :=
      Verifier.keyStatus_of_verifyAll (Json.exists_of_mapError_eq_ok h)
    exact ⟨profile, by rw [hlinks], hstatus⟩

namespace Call

variable {c : Call} {owner signer : Address}

lemma Registers.onlyEdits (h : c.Registers owner signer) : c.OnlyEdits := by
  cases c with
  | registerKey => trivial
  | _ => exact h.elim

lemma Registers.owner_eq (h : c.Registers owner signer) : c.owner = owner := by
  cases c with
  | registerKey => exact h.1
  | _ => exact h.elim

lemma isSome_key?_edit (h : c.SparesKeys) (q : Profile) :
    ((c.edit q).key? signer).isSome ↔ c.Registers c.owner signer ∨ (q.key? signer).isSome := by
  cases c with
  | registerKey p validFrom validTo =>
    simp only [edit, Publisher.keyEdit, Registers, Call.owner, true_and]
    cases (p.signingKey validFrom validTo).fingerprint with
    | error e => simp
    | ok fingerprint =>
      simp only [Profile.key?_putKey, Except.ok.injEq]
      by_cases hsigner : signer = fingerprint
      · simp [hsigner]
      · simp [hsigner, Ne.symm hsigner]
  | revokeKey p fingerprint time =>
    have happly : (revokeKey p fingerprint time).edit q =
        Profile.Edit.apply q (.revoke fingerprint time) := rfl
    rw [happly, Profile.key?_apply q id, Option.isSome_map]
    exact (or_iff_right id).symm
  | updateProfile p edit => exact (h q signer).trans (or_iff_right id).symm
  | _ => exact (or_iff_right id).symm

end Call

namespace System

variable {s : System σ} {owner signer : Address}

lemma registeredIn_append {log log' : List Event} : s.RegisteredIn (log ++ log') owner signer ↔
    s.RegisteredIn log owner signer ∨ s.RegisteredIn log' owner signer := by
  simp only [RegisteredIn, Log.revisionsAt_append, List.mem_append, or_and_right, exists_or]

lemma registeredIn_swap {task : Nat} {expected : Option Nat} {next : Profile} {c : Call}
    (hcall : s.call? task = some c) :
    s.RegisteredIn [⟨task, .swapProfile owner expected next, .ok .swapped⟩] owner signer ↔
      c.Registers owner signer := by
  have hnew : Log.revisionsAt [⟨task, .swapProfile owner expected next, .ok .swapped⟩] owner =
      [⟨task, owner, next⟩] := by
    simp [Log.revisionsAt, Log.revisions, Event.revision?]
  simp only [RegisteredIn, hnew, List.mem_singleton, exists_eq_left, hcall, Option.mem_def,
    Option.some.injEq, exists_eq_left']

lemma exists_task_of_call? {i : Nat} {c : Call} (h : s.call? i = some c) :
    ∃ rest, s.tasks[i]? = some ⟨c, rest⟩ := by
  obtain ⟨⟨call, rest⟩, ht, rfl⟩ := Option.map_eq_some_iff.1 h
  exact ⟨rest, ht⟩

end System

namespace Logged

variable {holds : σ → Records → Prop} {admits : Profile → Prop} {s : System σ}
  {owner signer : Address}

/-- A call to register a key succeeds as soon as its swap has landed, and not before. -/
theorem hasRegistered_iff (h : Logged holds admits s) :
    s.HasRegistered owner signer ↔ s.RegisteredIn s.events owner signer := by
  constructor
  · rintro ⟨i, c, answer, turn, hregisters⟩
    obtain ⟨progress, htells, hprogress⟩ := h.ended turn
    obtain ⟨record, hrecord⟩ :=
      Option.isSome_iff_exists.1 ((Call.isSome_of_tells hregisters.onlyEdits htells).trans rfl)
    have hby := hprogress.revisionsBy_eq
    rw [hrecord, hregisters.owner_eq] at hby
    have hmem : (⟨i, owner, record.value⟩ : Revision) ∈ Log.revisionsBy s.events i := by
      rw [hby]
      exact List.mem_singleton_self _
    refine ⟨⟨i, owner, record.value⟩, ?_, c, System.call?_of_task turn, hregisters⟩
    exact List.mem_filter.2 ⟨(List.mem_filter.1 hmem).1, by simp⟩
  · rintro ⟨r, hr, c, hcall, hregisters⟩
    obtain ⟨rest, turn⟩ := System.exists_task_of_call? hcall
    obtain ⟨-, progress, hrevises, hprogress⟩ : c.Preserves admits ∧ ∃ progress : Progress,
        Revises c.owner c.refreshed c.edit c.Tells progress rest ∧
          progress.Holds admits s.events r.task c := h.tasks _ _ turn
    have hmem : r ∈ Log.revisionsBy s.events r.task :=
      List.mem_filter.2 ⟨(List.mem_filter.1 hr).1, by simp⟩
    rw [hprogress.revisionsBy_eq] at hmem
    cases progress with
    | landed record =>
      -- Nothing is asked for after the swap, so the call has come to its end.
      cases hrevises with
      | @done _ outcome htells =>
        have hsome := Call.isSome_of_tells hregisters.onlyEdits htells
        cases outcome with
        | error e => cases hsome
        | ok answer => exact ⟨r.task, c, answer, turn, hregisters⟩
    | _ => exact absurd hmem List.not_mem_nil

/-- The keys in a profile are those that were registered. -/
theorem isSome_key?_iff (h : Logged holds admits s)
    (hspares : ∀ state ∈ s.tasks, state.call.owner = owner → state.call.SparesKeys) :
    ((profileOf (Log.records s.events owner)).key? signer).isSome ↔
      s.RegisteredIn s.events owner signer := by
  have hall : [] ++ s.events <+: s.events := List.prefix_refl _
  rw [← List.nil_append s.events]
  refine h.profile_induction
    (P := fun log q => (q.key? signer).isSome ↔ s.RegisteredIn log owner signer) hall ?_ ?_ ?_
  · refine iff_of_false ?_ ?_
    · rintro ⟨⟩
    · rintro ⟨_, ⟨⟩, _⟩
  · intro log e q hnone hq
    rw [hq, System.registeredIn_append, or_iff_left]
    rintro ⟨r, hr, -⟩
    rw [hnone] at hr
    exact absurd hr List.not_mem_nil
  · intro log r expected c q found _ hcall howner hnext hq
    obtain ⟨rest, turn⟩ := System.exists_task_of_call? hcall
    have hsame : (q.withHead c.refreshed found).key? signer = q.key? signer := by
      rw [Profile.key?, Profile.signingKeys_withHead, Profile.key?]
    rw [System.registeredIn_append, System.registeredIn_swap hcall, hnext,
      Call.isSome_key?_edit (hspares _ (List.mem_of_getElem? turn) howner), hsame, hq, howner]
    exact or_comm

end Logged

section

variable {rep : σ → Contents → Prop} {k : Contents} {chains : Address × String → List Chunk}
  {holds : σ → Records → Prop} {admits : Profile → Prop} {s t u : System σ} {limit : Nat}
  {owner : Address} {namespaceName : String}

lemma Reader.audit_program (limit : Nat) (owner : Address) (namespaceName : String) :
    ∃ next, (audit limit owner namespaceName).program = .ask (.loadProfile owner) next ∧
      ∀ found, next (.ok found) = (links limit owner namespaceName).program.bind fun outcome =>
        .done (outcome.map (profileOf found, ·)) := by
  refine ⟨_, rfl, fun found => ?_⟩
  change Operation.program ((fun l => (profileOf found, l)) <$>
    links limit owner namespaceName) = _
  rw [Operation.program_map]

/-- The links that an audit gets end in those that there were when it asked for the index, and even in
those that there were before. -/
lemma Amid.links_suffix (keeps : b.Keeps rep) (hrep : rep u.store k) (hsound : Sound k chains u)
    {later : List (Request × System σ)} {found : List Link}
    (h : Amid b (Reader.links limit owner namespaceName).program u later (.ok found) t)
    (hfree : t.CollisionFree) :
    (u.committed (owner, Text.lower namespaceName)).flatten.reverse <:+ found := by
  obtain ⟨_, next, hprogram, -⟩ := Reader.exists_answers_links
    (hsound.shelved (owner, Text.lower namespaceName)) limit
  rw [hprogram] at h
  obtain ⟨v, gets, rfl, hrun, hrest⟩ := h.of_ask
  obtain ⟨k', chains', hrep', hgrown, hsound'⟩ :=
    hsound.run keeps hrep hrun (hrest.collisionFree hfree)
  obtain ⟨final, hanswers⟩ := Reader.exists_answers_links
    (hsound'.shelved (owner, Text.lower namespaceName)) limit
  have halone := hanswers.run keeps hrep'
  obtain ⟨next', hprogram', hreads⟩ := hanswers
  cases hprogram.symm.trans hprogram'
  rw [keeps.loadIndex hrep'] at hrest
  obtain ⟨rfl, -⟩ := hrest.of_reads keeps hrep' hsound' hfree hreads
  rw [← hsound.links_eq, Reader.links_of_run (hsound'.shelved _) keeps hrep'
    (congrArg Prod.fst halone)]
  obtain ⟨newest, hnewest⟩ := hgrown.chains (owner, Text.lower namespaceName)
  rw [← hnewest, Lineage.links, Lineage.links, List.flatMap_append]
  exact List.suffix_append ..

lemma System.KeysFirst.registeredIn (h : u.KeysFirst owner namespaceName) {link : Link}
    (hlink : link ∈ (u.committed (owner, Text.lower namespaceName)).flatten) :
    u.RegisteredIn u.events owner link.body.signerAddress := by
  obtain ⟨links, hlinks, hmem⟩ := List.mem_flatten.1 hlink
  obtain ⟨l, hl, hbatch⟩ := List.mem_filterMap.1 hlinks
  obtain ⟨w, hw, rfl⟩ := Option.map_eq_some_iff.1 hbatch
  obtain ⟨hlanding, hkey⟩ := List.mem_filter.1 hl
  obtain ⟨e, he, hel⟩ := List.mem_filterMap.1 hlanding
  obtain ⟨before, after, hsplit⟩ := List.append_of_mem he
  rw [hsplit]
  exact registeredIn_append.2
    (.inl (h before e after l hsplit hel (of_decide_eq_true hkey) w hw link hmem))

theorem Logged.auditedSince (keeps : b.Keeps rep) (hrep : u.CollisionFree → ∃ k chains,
      rep u.store k ∧ Sound k chains u) (h : Logged holds admits u)
    (hspares : ∀ state ∈ u.tasks, state.call.owner = owner → state.call.SparesKeys)
    {later : List (Request × System σ)} {outcome : Except OperationError (List Link)}
    (hlinks : Amid b (Reader.links limit owner namespaceName).program u later outcome t)
    {settings : ReaderSettings} {c : Chain} {entries : List (Link × Verification)}
    (hentries : Reader.conclude settings c
      (outcome.map (profileOf (Log.records u.events owner), ·)) = .ok entries) :
    AuditedSince u t owner namespaceName entries := by
  obtain ⟨profile, hresult, hstatus⟩ := Reader.keyStatus_of_conclude hentries
  cases outcome with
  | error e => cases hresult
  | ok found =>
    cases hresult
    have hmissing (entry : Link × Verification) (hentry : entry ∈ entries) :
        entry.2.keyStatus = .notRegistered ↔
          ¬u.RegisteredIn u.events owner entry.1.body.signerAddress := by
      rw [hstatus entry hentry, Profile.keyStatus_eq_notRegistered_iff,
        ← h.isSome_key?_iff hspares, Option.not_isSome_iff_eq_none]
    refine ⟨fun entry hentry => ?_, fun hfirst entry hentry hlink => ?_, fun hfree => ?_⟩
    · rw [hmissing entry hentry, h.hasRegistered_iff]
    · rw [ne_eq, hmissing entry hentry, not_not]
      exact hfirst.registeredIn hlink
    · obtain ⟨k, chains, hk, hsound⟩ := hrep (hlinks.collisionFree hfree)
      exact hlinks.links_suffix keeps hk hsound hfree

/-- An audit that is run while others go on, in a store that has been used since it was empty. -/
theorem Amid.auditedSince (keeps : b.Keeps rep) (keeps' : b.KeepsRecords holds admits) {store : σ}
    (hstore : rep store .empty) (hstore' : holds store fun _ => none)
    (hs : System.Run b (.start store) s) {settings : ReaderSettings}
    {served : List (Request × System σ)} {result : Except OperationError (Profile × List Link)}
    (h : Amid b (Reader.audit settings.maxChainWalk owner namespaceName).program s served result t)
    (preserves : ∀ state ∈ t.tasks, state.call.Preserves admits)
    (hspares : ∀ state ∈ t.tasks, state.call.owner = owner → state.call.SparesKeys) :
    ∃ u later, served = (.loadProfile owner, u) :: later ∧ System.Run b s u ∧
      ∀ c entries, Reader.conclude settings c result = .ok entries →
        AuditedSince u t owner namespaceName entries := by
  obtain ⟨next, hprogram, hnext⟩ :=
    Reader.audit_program settings.maxChainWalk owner namespaceName
  rw [hprogram] at h
  obtain ⟨u, later, hserved, hrun, hrest⟩ := h.of_ask
  have hlogged : Logged holds admits u := (Logged.start keeps' hstore').run keeps' (hs.trans hrun)
    (hrest.forall_call preserves)
  have hsparesThen := hrest.forall_call (P := fun c => c.owner = owner → c.SparesKeys) hspares
  rw [keeps'.load hlogged.records, hnext] at hrest
  obtain ⟨outcome, hlinks, rfl⟩ := hrest.of_bind_done
  refine ⟨u, later, hserved, hrun, fun c entries hentries => ?_⟩
  refine hlogged.auditedSince keeps (fun hfree => ?_) hsparesThen hlinks hentries
  obtain ⟨k, chains, hrep, -, hsound⟩ :=
    (Sound.start store).run keeps hstore (hs.trans hrun) hfree
  exact ⟨k, chains, hrep, hsound⟩

end

/-- However an audit is interleaved with other calls, in a store in memory and in one of rows: the
keys that it reports as missing are those of the signers who had not registered when it loaded the
profile. Only calls that edit the profile in ways of their own must leave the keys to the others. -/
theorem audits_know_registered_keys (settings : ReaderSettings) (owner : Address)
    (namespaceName : String) :
    (∀ (s t : System Memory) served result, System.Run Memory.backend (.start .empty) s →
      Amid Memory.backend (Reader.audit settings.maxChainWalk owner namespaceName).program s served
        result t →
      (∀ state ∈ t.tasks, state.call.owner = owner → state.call.SparesKeys) →
        ∃ u later, served = (.loadProfile owner, u) :: later ∧ System.Run Memory.backend s u ∧
          ∀ c entries, Reader.conclude settings c result = .ok entries →
            AuditedSince u t owner namespaceName entries) ∧
    ∀ (s t : System Rows) served result, System.Run Rows.backend (.start .fresh) s →
      Amid Rows.backend (Reader.audit settings.maxChainWalk owner namespaceName).program s served
        result t →
      (∀ state ∈ t.tasks, state.call.owner = owner → state.call.SparesKeys) →
      (∀ state ∈ t.tasks, state.call.KeepsStorable) →
        ∃ u later, served = (.loadProfile owner, u) :: later ∧ System.Run Rows.backend s u ∧
          ∀ c entries, Reader.conclude settings c result = .ok entries →
            AuditedSince u t owner namespaceName entries := by
  constructor
  · intro s t served result hs h hspares
    exact h.auditedSince Memory.backend_keeps Memory.keepsRecords Memory.contents_empty rfl hs
      (fun _ _ _ _ => trivial) hspares
  · intro s t served result hs h hspares hstorable
    exact h.auditedSince Rows.backend_keeps Rows.keepsRecords Rows.represents_fresh .fresh hs
      (fun state hstate => Call.preserves_storable (hstorable state hstate)) hspares

section

variable {rep : σ → Contents → Prop} {k : Contents} {chains : Address × String → List Chunk}
  {s t u : System σ} {limit : Nat} {owner : Address} {namespaceName : String} {links : List Link}

lemma exists_amid_audit {found : Option (Versioned Profile)}
    (hload : b (.loadProfile owner) u.store = (.ok found, u.store)) (hrun : System.Run b u t)
    (hlinks : (Reader.links limit owner namespaceName).run b t.store = (.ok links, t.store)) :
    ∃ later, Amid b (Reader.audit limit owner namespaceName).program u
      ((.loadProfile owner, u) :: later) (.ok (profileOf found, links)) t := by
  obtain ⟨next, hprogram, hnext⟩ := Reader.audit_program limit owner namespaceName
  obtain ⟨later, halone⟩ := Amid.alone b (Reader.links limit owner namespaceName).program t
  change Program.run b (Reader.links limit owner namespaceName).program t.store = _ at hlinks
  rw [hlinks] at halone
  refine ⟨later, ?_⟩
  rw [hprogram]
  refine .serve ?_
  rw [hload, hnext]
  exact (halone.bind_done _).after_run hrun

lemma Sound.run_links (keeps : b.Keeps rep) (hrep : rep s.store k) (h : Sound k chains s)
    {batch : List Link} (hcommitted : s.committed (owner, Text.lower namespaceName) = [batch])
    (hlimit : 1 ≤ limit) :
    (Reader.links limit owner namespaceName).run b s.store = (.ok batch.reverse, s.store) := by
  have hlength : (s.landingsAt (owner, Text.lower namespaceName)).length = 1 := by
    have hcommits := congrArg List.length (h.committed_eq (owner, Text.lower namespaceName))
    rw [hcommitted, List.length_map, List.length_reverse, ← h.length_landingsAt] at hcommits
    exact hcommits.symm
  have hlinks := (h.exactlyOnce keeps hrep).links owner namespaceName limit
    (List.ne_nil_of_length_eq_add_one hlength) (hlength ▸ hlimit)
  rw [hcommitted] at hlinks
  simpa using hlinks

lemma System.KeysFirst.of_run (hrun : System.Run b s t) (hnone : s.landings = [])
    (hregistered : ∀ state ∈ t.tasks, ∀ w, state.call.batch? = some w → ∀ link ∈ w.links,
      s.RegisteredIn s.events owner link.body.signerAddress) : t.KeysFirst owner namespaceName := by
  intro before e after l hsplit hlanding _ w hw link hlink
  obtain ⟨state, hstate, hbatch⟩ := Option.bind_eq_some_iff.1 hw
  obtain ⟨r, hr, c, hcall, hregisters⟩ :=
    hregistered state (List.mem_of_getElem? hstate) w hbatch link hlink
  have hnew : e ∉ s.events := by
    intro he
    have hl : l ∈ s.landings := List.mem_filterMap.2 ⟨e, he, hlanding⟩
    rw [hnone] at hl
    exact absurd hl List.not_mem_nil
  have hbefore : s.events <+: before := by
    have hfront : before ++ [e] <+: t.events := ⟨after, by rw [hsplit]; simp⟩
    rcases List.prefix_or_prefix_of_prefix (prefix_events hrun) hfront with h | h
    · exact (List.prefix_concat_iff.1 h).resolve_left fun heq => hnew (by rw [heq]; simp)
    · exact absurd (h.subset (by simp)) hnew
  exact ⟨r, ((hbefore.filterMap _).filter _).subset hr, c, call?_of_run hrun hcall, hregisters⟩

end

namespace System

lemma served_called (b : Backend σ) {s : System σ} {i : Nat} (h : i < s.tasks.length) (c : Call) :
    (s.called c).served b i = (s.served b i).called c ∧
      (s.served b i).tasks.length = s.tasks.length := by
  have hturn : (s.called c).tasks[i]? = s.tasks[i]? := List.getElem?_append_left h
  cases hi : s.tasks[i]? with
  | none => exact absurd (List.getElem?_eq_none_iff.1 hi) (Nat.not_le_of_lt h)
  | some t =>
    obtain ⟨call, rest⟩ := t
    rw [hi] at hturn
    cases rest with
    | done outcome => simp only [served, hturn, hi, and_self]
    | ask r next =>
      simp only [served, hturn, hi]
      refine ⟨?_, List.length_set⟩
      simp only [replied, called, List.set_append_left _ _ h]

lemma schedule_called (b : Backend σ) {s : System σ} (c : Call) {turns : List Nat}
    (h : ∀ i ∈ turns, i < s.tasks.length) :
    (s.called c).schedule b turns = (s.schedule b turns).called c := by
  induction turns generalizing s with
  | nil => rfl
  | cons i turns ih =>
    obtain ⟨hi, hturns⟩ := List.forall_mem_cons.1 h
    obtain ⟨hserved, hlength⟩ := served_called b hi c
    change ((s.called c).served b i).schedule b turns = ((s.served b i).schedule b turns).called c
    rw [hserved]
    exact ih fun j hj => hlength ▸ hturns j hj

end System

def registeredMemory : System Memory :=
  ((System.start Memory.empty).called (.registerKey samplePublisher 0 none)).schedule
    Memory.backend [0, 0]

def signedCall : Call := .append samplePublisher "Docs" [Verifier.signedLink]

lemma registeredMemory_run : System.Run Memory.backend (.start .empty) registeredMemory := by
  refine .head (.begin _ ?_) (System.run_schedule ..)
  rintro _ ⟨⟩

/-- The link is appended after the registration has succeeded. -/
lemma publishedMemory_run_of_registered :
    System.Run Memory.backend (registeredMemory.called signedCall) publishedMemory := by
  have hsplit : publishedMemory =
      (registeredMemory.called signedCall).schedule Memory.backend [1, 1, 1, 1, 1, 1] := by
    have hcalled : (publishing Memory.empty).schedule Memory.backend [0, 0] =
        registeredMemory.called signedCall :=
      System.schedule_called Memory.backend signedCall (by decide)
    rw [← hcalled]
    exact System.schedule_append Memory.backend _ [0, 0] [1, 1, 1, 1, 1, 1]
  rw [hsplit]
  exact System.run_schedule ..

lemma signedCall_fits (w : Batch) (h : signedCall.batch? = some w) : w.Fits := by
  cases h
  refine ⟨(by decide : 1 < UInt64.size), List.forall_mem_singleton.2 ?_⟩
  exact ⟨by decide, by decide, nofun, nofun⟩

lemma registeredMemory_done : ∃ fingerprint, registeredMemory.tasks[0]? =
    some ⟨.registerKey samplePublisher 0 none, .done (.ok fingerprint)⟩ :=
  System.exists_answer (System.call?_of_run (System.run_schedule ..) rfl) (by decide +kernel)

lemma landings_registeredMemory : registeredMemory.landings = [] := by
  have hlength : registeredMemory.landings.length = 0 := by decide +kernel
  exact List.length_eq_zero_iff.1 hlength

lemma registers_samplePublisher : Call.Registers samplePublisher.owner
    Verifier.signedLink.body.signerAddress (.registerKey samplePublisher 0 none) :=
  ⟨rfl, samplePublisher.fingerprint_signingKey samplePublisher_invertible.decodes 0 none⟩

lemma registeredMemory_registered : registeredMemory.RegisteredIn registeredMemory.events
    samplePublisher.owner Verifier.signedLink.body.signerAddress := by
  obtain ⟨fingerprint, turn⟩ := registeredMemory_done
  have hlogged := (Logged.start Memory.keepsRecords rfl).run Memory.keepsRecords
    registeredMemory_run fun _ _ _ _ => trivial
  exact hlogged.hasRegistered_iff.1 ⟨0, _, fingerprint, turn, registers_samplePublisher⟩

lemma run_registered_published : System.Run Memory.backend registeredMemory publishedMemory :=
  .head (.begin signedCall signedCall_fits) publishedMemory_run_of_registered

lemma forall_call_publishedMemory {P : Call → Prop}
    (hregister : P (.registerKey samplePublisher 0 none)) (happend : P signedCall) :
    ∀ state ∈ publishedMemory.tasks, P state.call := by
  refine System.forall_call_schedule _ ?_ _
  intro state hstate
  have htwo : state ∈ [(⟨_, (Call.registerKey samplePublisher 0 none).operation.program⟩ : Task),
    ⟨_, signedCall.operation.program⟩] := hstate
  rcases List.mem_pair.1 htwo with rfl | rfl
  · exact hregister
  · exact happend

lemma publishedMemory_keysFirst : publishedMemory.KeysFirst samplePublisher.owner "Docs" := by
  refine .of_run run_registered_published landings_registeredMemory ?_
  refine forall_call_publishedMemory (P := fun c => ∀ w, c.batch? = some w → ∀ link ∈ w.links,
    registeredMemory.RegisteredIn registeredMemory.events samplePublisher.owner
      link.body.signerAddress) ?_ ?_
  · rintro _ ⟨⟩
  · rintro _ ⟨⟩ link hlink
    rw [List.mem_singleton.1 hlink]
    exact registeredMemory_registered

lemma committed_publishedMemory : publishedMemory.committed
    (samplePublisher.owner, Text.lower "Docs") = [[Verifier.signedLink]] := by
  decide +kernel

lemma links_publishedMemory : (Reader.links ReaderSettings.standard.maxChainWalk
    samplePublisher.owner "Docs").run Memory.backend publishedMemory.store =
      (.ok [Verifier.signedLink], publishedMemory.store) := by
  obtain ⟨k, chains, hrep, -, hsound⟩ := (Sound.start Memory.empty).run Memory.backend_keeps
    Memory.contents_empty ((run_publishing Memory.backend .empty).trans publishedMemory_run)
    publishedMemory_collisionFree
  exact hsound.run_links Memory.backend_keeps hrep committed_publishedMemory (by decide)

lemma exists_conclude_signedLink (profile : Profile) : ∃ v,
    Reader.conclude .standard Verifier.walletChain (.ok (profile, [Verifier.signedLink])) =
      .ok [(Verifier.signedLink, v)] := by
  have hcheckable : ∀ l ∈ [Verifier.signedLink], l.Checkable :=
    List.forall_mem_singleton.2 ⟨rfl, Verifier.signedLink_wellFormed⟩
  obtain ⟨entries, hentries, hok⟩ := Verifier.exists_verifyAll
    ReaderSettings.standard.requireRegisteredKey profile
    (rfl : Verifier.walletChain.reachable = true) hcheckable
  obtain ⟨⟨l, v⟩, rfl, hl⟩ := List.map_eq_singleton_iff.1 (Verifier.map_fst_of_verdicts hentries)
  cases hl
  exact ⟨v, congrArg (Except.mapError OperationError.verify) hok⟩

/-- An audit loads the profile of an owner who has none. Then the owner registers a key, and when the
registration has succeeded, appends a link that was signed with it. The audit finds the link, but
not the key. -/
theorem audit_misses_registered_key :
    (∃ fingerprint, System.Run Memory.backend (.start .empty) registeredMemory ∧
      registeredMemory.tasks[0]? =
        some ⟨.registerKey samplePublisher 0 none, .done (.ok fingerprint)⟩) ∧
      System.Run Memory.backend (registeredMemory.called signedCall) publishedMemory ∧
      publishedMemory.CollisionFree ∧ publishedMemory.KeysFirst samplePublisher.owner "Docs" ∧
      (∀ state ∈ publishedMemory.tasks, state.call.SparesKeys) ∧
      ∃ served result v,
        Amid Memory.backend (Reader.audit ReaderSettings.standard.maxChainWalk
          samplePublisher.owner "Docs").program (.start .empty) served result publishedMemory ∧
        Reader.conclude .standard Verifier.walletChain result = .ok [(Verifier.signedLink, v)] ∧
        v.keyStatus = .notRegistered := by
  obtain ⟨fingerprint, turn⟩ := registeredMemory_done
  have hload : Memory.backend (.loadProfile samplePublisher.owner)
      (System.start Memory.empty).store = (.ok none, (System.start Memory.empty).store) := rfl
  obtain ⟨later, h⟩ := exists_amid_audit hload
    (registeredMemory_run.trans run_registered_published) links_publishedMemory
  obtain ⟨v, hv⟩ := exists_conclude_signedLink (profileOf none)
  refine ⟨⟨fingerprint, registeredMemory_run, turn⟩, publishedMemory_run_of_registered,
    publishedMemory_collisionFree, publishedMemory_keysFirst,
    forall_call_publishedMemory trivial trivial, _, _, v, h, hv, ?_⟩
  obtain ⟨profile, hprofile, hstatus⟩ := Reader.keyStatus_of_conclude hv
  cases hprofile
  rw [hstatus _ (List.mem_singleton_self _), Profile.keyStatus_eq_notRegistered_iff]
  rfl

def revokingMemory : System Memory :=
  publishedMemory.called (.revokeKey samplePublisher samplePublisher.owner.text 5)

lemma publishedMemory_run_revoking :
    System.Run Memory.backend publishedMemory revokingMemory := by
  refine .single (.begin _ ?_)
  rintro _ ⟨⟩

lemma revokingMemory_sparesKeys : ∀ state ∈ revokingMemory.tasks, state.call.SparesKeys := by
  intro state hstate
  rcases List.mem_append.1 hstate with hstate | hstate
  · exact forall_call_publishedMemory trivial trivial state hstate
  · rw [List.mem_singleton.1 hstate]
    trivial

lemma links_publishedRows : (Reader.links ReaderSettings.standard.maxChainWalk
    samplePublisher.owner "Docs").run Rows.backend publishedRows.store =
      (.ok [Verifier.signedLink], publishedRows.store) := by
  obtain ⟨k, chains, hrep, -, hsound⟩ := (Sound.start Rows.fresh).run Rows.backend_keeps
    Rows.represents_fresh ((run_publishing Rows.backend .fresh).trans publishedRows_run)
    publishedRows_collisionFree
  exact hsound.run_links Rows.backend_keeps hrep committed_publishedRows (by decide)

lemma loadProfile_publishedRows : ∃ found, Rows.backend (.loadProfile samplePublisher.owner)
    publishedRows.store = (.ok found, publishedRows.store) := by
  have hlogged := (Logged.start Rows.keepsRecords .fresh).run Rows.keepsRecords
    ((run_publishing Rows.backend .fresh).trans publishedRows_run)
    fun state hstate => Call.preserves_storable (publishedRows_storable state hstate)
  exact ⟨_, Rows.keepsRecords.load hlogged.records samplePublisher.owner⟩

/-- An audit that loads the profile between an append and the revocation of the key knows the key,
and so does one that is run alone on rows. -/
theorem sample_audits_know_key :
    (∃ served result v,
      System.Run Memory.backend (.start .empty) registeredMemory ∧
      Amid Memory.backend (Reader.audit ReaderSettings.standard.maxChainWalk
        samplePublisher.owner "Docs").program registeredMemory served result revokingMemory ∧
      (∀ state ∈ revokingMemory.tasks,
        state.call.owner = samplePublisher.owner → state.call.SparesKeys) ∧
      publishedMemory.KeysFirst samplePublisher.owner "Docs" ∧
      Reader.conclude .standard Verifier.walletChain result = .ok [(Verifier.signedLink, v)] ∧
      AuditedSince publishedMemory revokingMemory samplePublisher.owner "Docs"
        [(Verifier.signedLink, v)] ∧
      v.keyStatus ≠ .notRegistered) ∧
    ∃ served result v,
      System.Run Rows.backend (.start .fresh) publishedRows ∧
      Amid Rows.backend (Reader.audit ReaderSettings.standard.maxChainWalk
        samplePublisher.owner "Docs").program publishedRows served result publishedRows ∧
      (∀ state ∈ publishedRows.tasks,
        state.call.owner = samplePublisher.owner → state.call.SparesKeys) ∧
      (∀ state ∈ publishedRows.tasks, state.call.KeepsStorable) ∧
      Reader.conclude .standard Verifier.walletChain result = .ok [(Verifier.signedLink, v)] ∧
      AuditedSince publishedRows publishedRows samplePublisher.owner "Docs"
        [(Verifier.signedLink, v)] := by
  obtain ⟨inMemory, inRows⟩ :=
    audits_know_registered_keys .standard samplePublisher.owner "Docs"
  constructor
  · have hspares (state : Task) (hstate : state ∈ revokingMemory.tasks)
        (_ : state.call.owner = samplePublisher.owner) : state.call.SparesKeys :=
      revokingMemory_sparesKeys state hstate
    have hload : Memory.backend (.loadProfile samplePublisher.owner) publishedMemory.store =
        (.ok (publishedMemory.store.profiles.get? samplePublisher.owner), publishedMemory.store) :=
      rfl
    obtain ⟨gets, h⟩ :=
      exists_amid_audit hload publishedMemory_run_revoking links_publishedMemory
    have hwhole := h.after_run run_registered_published
    obtain ⟨v, hv⟩ := exists_conclude_signedLink
      (profileOf (publishedMemory.store.profiles.get? samplePublisher.owner))
    obtain ⟨u, later, hserved, -, haudited⟩ := inMemory registeredMemory revokingMemory _ _
      registeredMemory_run hwhole hspares
    obtain rfl : publishedMemory = u := congrArg Prod.snd (List.cons.inj hserved).1
    have hsince := haudited _ _ hv
    refine ⟨_, _, v, registeredMemory_run, hwhole, hspares, publishedMemory_keysFirst, hv, hsince,
      hsince.keysFirst publishedMemory_keysFirst _ (List.mem_singleton_self _) ?_⟩
    rw [committed_publishedMemory]
    exact List.mem_singleton_self _
  · have hspares (state : Task) (hstate : state ∈ publishedRows.tasks)
        (_ : state.call.owner = samplePublisher.owner) : state.call.SparesKeys :=
      forall_call_of_publishing publishedRows_run length_tasks_publishedRows trivial trivial state
        hstate
    obtain ⟨found, hload⟩ := loadProfile_publishedRows
    obtain ⟨gets, h⟩ := exists_amid_audit hload .refl links_publishedRows
    obtain ⟨v, hv⟩ := exists_conclude_signedLink (profileOf found)
    have hrows := (run_publishing Rows.backend .fresh).trans publishedRows_run
    obtain ⟨u, later, hserved, -, haudited⟩ := inRows publishedRows publishedRows _ _ hrows h hspares
      publishedRows_storable
    obtain rfl : publishedRows = u := congrArg Prod.snd (List.cons.inj hserved).1
    exact ⟨_, _, v, hrows, h, hspares, publishedRows_storable, hv, haudited _ _ hv⟩

end SignedNames
