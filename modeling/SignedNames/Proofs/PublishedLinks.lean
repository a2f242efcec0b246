import Mathlib
import SignedNames.Proofs.ExactlyOnce
import SignedNames.Proofs.LatestVersion
import SignedNames.Proofs.Mirroring
import SignedNames.Proofs.ProfileLog
import SignedNames.Proofs.PublisherKeys

/-!
# Published links are read back and pass

Once a publisher has registered its key and appended a link that it signed, readers find the link
and the key, and the link passes every check, as long as nothing later takes the place of either.
-/
namespace SignedNames

variable {σ : Type} {b : Backend σ}

/-- A call that may change the keys of a profile. -/
def Call.EditsKeys : Call → Prop
  | registerKey .. => True
  | revokeKey .. => True
  | updateProfile .. => True
  | _ => False

namespace System

/-- No call that may change keys has landed a revision after this task. -/
def LastKeyEdit (s : System σ) (owner : Address) (task : Nat) : Prop :=
  ∀ before r after, Log.revisionsAt s.events owner = before ++ r :: after → r.task = task →
    ∀ r' ∈ after, ∀ c ∈ s.call? r'.task, ¬c.EditsKeys

/-- Nothing with this name has been appended after what this task has. -/
def LastOfName (s : System σ) (key : Address × String) (name : String) (task : Nat) : Prop :=
  ∀ before l after, s.landingsAt key = before ++ l :: after → l.task = task →
    ∀ l' ∈ after, ∀ w ∈ s.batch? l'.task, ∀ other ∈ w.links, ¬other.HasName name

end System

lemma Profile.signingKeys_withHead (q : Profile) (namespaceName : Option String)
    (found : Option NameIndex) : (q.withHead namespaceName found).signingKeys = q.signingKeys := by
  cases namespaceName with
  | none => rfl
  | some name => cases found <;> rfl

lemma Call.signingKeys_edit {c : Call} (h : ¬c.EditsKeys) (q : Profile) :
    (c.edit q).signingKeys = q.signingKeys := by
  cases c with
  | registerKey => exact absurd trivial h
  | revokeKey => exact absurd trivial h
  | updateProfile => exact absurd trivial h
  | _ => rfl

theorem Logged.signingKeys_eq {rep : σ → Records → Prop} {admits : Profile → Prop}
    {s : System σ} (h : Logged rep admits s) {owner : Address} {before after : List Event}
    (hevents : before ++ after <+: s.events)
    (hkeys : ∀ r ∈ Log.revisionsAt after owner, ∀ c ∈ s.call? r.task, ¬c.EditsKeys) :
    (profileOf (Log.records (before ++ after) owner)).signingKeys =
      (profileOf (Log.records before owner)).signingKeys := by
  refine h.profile_induction (P := fun _ q => q.signingKeys = _) hevents rfl
    (fun _ _ _ _ hq => hq) ?_
  intro _ r _ c q found hr hc _ hnext hq
  rw [hnext, Call.signingKeys_edit (hkeys r hr c hc), Profile.signingKeys_withHead, hq]

/-- What a registration has put into the profile is there until a call lands that may change it. -/
theorem Logged.key?_of_registered {rep : σ → Records → Prop} {admits : Profile → Prop}
    {s : System σ} (h : Logged rep admits s) {p : Publisher} {validFrom : UInt64}
    {validTo : Option UInt64} {task : Nat} {fingerprint : Address}
    (turn : s.tasks[task]? = some ⟨.registerKey p validFrom validTo, .done (.ok fingerprint)⟩)
    (hlast : s.LastKeyEdit p.owner task)
    (hdecodes : PublicKey.point? p.keypair.publicKey.block.bytes = some p.keypair.point) :
    (profileOf (Log.records s.events p.owner)).key? p.owner =
      some (p.signingKey validFrom validTo) := by
  obtain ⟨progress, htells, hholds⟩ := h.ended turn
  have hsome : progress.record?.isSome = true := htells
  cases progress with
  | landed record =>
    obtain ⟨-, before, after, expected, hevents, hrecord⟩ := hholds
    obtain ⟨c, found, hcall, howner, hrevised⟩ := h.serial before after task _ expected _ hevents
    have hc : c = .registerKey p validFrom validTo :=
      Option.some.inj (hcall.symm.trans (System.call?_of_task turn))
    subst hc
    have hsplit : Log.revisionsAt s.events p.owner = Log.revisionsAt before p.owner ++
        ⟨task, p.owner, record.value⟩ :: Log.revisionsAt after p.owner := by
      rw [hevents, Log.revisionsAt_append, ← List.singleton_append, Log.revisionsAt_append]
      simp [Log.revisionsAt, Log.revisions, Event.revision?, Call.owner]
    rw [← List.singleton_append, ← List.append_assoc] at hevents
    have hkeys := h.signingKeys_eq ⟨[], (List.append_nil _).trans hevents.symm⟩
      (hlast _ _ _ hsplit rfl)
    rw [← hevents] at hkeys
    have hnext : record.value = p.keyEdit validFrom validTo _ := hrevised.next
    have hfound : record.value.key? p.owner = some (p.signingKey validFrom validTo) := by
      rw [hnext]
      exact Publisher.key?_keyEdit hdecodes ..
    have hrecord' : profileOf (Log.records (before ++
        [⟨task, .swapProfile p.owner expected record.value, .ok .swapped⟩]) p.owner) =
          record.value := congrArg profileOf hrecord
    rw [Profile.key?, hkeys]
    exact (congrArg (fun q : Profile => q.key? p.owner) hrecord').trans hfound
  | _ => cases hsome

theorem System.latest?_of_last {s : System σ} {key : Address × String} {l : Landing} {link : Link}
    (hl : l ∈ s.landingsAt key) {w : Batch} (hw : s.batch? l.task = some w)
    (hlinks : w.links = [link]) (hlast : s.LastOfName key link.body.name l.task) {name : String}
    (hname : link.HasName name) : s.latest? key name = some link := by
  obtain ⟨before, after, hsplit⟩ := List.append_of_mem hl
  have hlater := hlast before l after hsplit rfl
  have hl' : (s.batch? l.task).map (·.links) = some [link] := by rw [hw, ← hlinks, Option.map_some]
  have hnone : (after.filterMap fun l => (s.batch? l.task).map (·.links)).flatten.reverse.find?
      (fun other => decide (other.HasName name)) = none := by
    refine List.find?_eq_none.2 fun other hother hnamed => ?_
    obtain ⟨links, hlinks', hmem⟩ := List.mem_flatten.1 (List.mem_reverse.1 hother)
    obtain ⟨l', hl', hbatch⟩ := List.mem_filterMap.1 hlinks'
    obtain ⟨w', hw', rfl⟩ := Option.map_eq_some_iff.1 hbatch
    refine hlater l' hl' w' hw' other hmem ?_
    exact (of_decide_eq_true hnamed : other.HasName name).trans hname.symm
  have hcommitted : s.committed key =
      (before.filterMap fun l => (s.batch? l.task).map (·.links)) ++
        [link] :: after.filterMap fun l => (s.batch? l.task).map (·.links) := by
    rw [System.committed, hsplit, List.filterMap_append]
    exact congrArg _ (List.filterMap_cons_some hl')
  rw [System.latest?, hcommitted, List.flatten_append, List.flatten_cons, List.reverse_append,
    List.reverse_append, List.find?_append, List.find?_append, hnone]
  simp [hname]

/-- A publisher has registered its key for a time that covers the signature, and appended a link
that it signed; nothing later has taken the place of either. -/
structure Published (s : System σ) (p : Publisher) (namespaceName : String) (d : LinkDraft)
    (chainId signedAt : UInt64) (nonce : Nonce) (link : Link) : Prop where
  signed : d.sign (some p.keypair) p.wallet chainId signedAt nonce = .ok link
  registered : ∃ (task : Nat) (validFrom : UInt64) (validTo : Option UInt64)
    (fingerprint : Address), validFrom ≤ signedAt ∧ (∀ stop ∈ validTo, signedAt < stop) ∧
      s.tasks[task]? = some ⟨.registerKey p validFrom validTo, .done (.ok fingerprint)⟩ ∧
      s.LastKeyEdit p.owner task
  appended : ∃ (task : Nat) (receipt : Receipt),
    s.tasks[task]? = some ⟨.append p namespaceName [link], .done (.ok receipt)⟩ ∧
      s.LastOfName (p.owner, Text.lower namespaceName) link.body.name task

/-- Readers find the link, and it passes against the profile that they find. -/
structure ReadsBack (b : Backend σ) (s : System σ) (p : Publisher) (namespaceName : String)
    (chainId : UInt64) (link : Link) : Prop where
  resolve : ∀ spelling name, Text.lower spelling = Text.lower namespaceName → link.HasName name →
    (Reader.resolve p.owner spelling name).run b s.store = (.ok (some link), s.store)
  verify : ∃ profile, (Reader.profile p.owner).run b s.store = (.ok (some profile), s.store) ∧
    ∀ requireRegisteredKey c, p.AnsweredBy chainId c →
      ∃ v, (Reader.verifyLink requireRegisteredKey c profile link).1 = .ok v ∧ v.Passed

section

variable {rep : σ → Contents → Prop} {k : Contents} {chains : Address × String → List Chunk}
  {holds : σ → Records → Prop} {admits : Profile → Prop} {s : System σ} {p : Publisher}
  {namespaceName : String} {d : LinkDraft} {chainId signedAt : UInt64} {nonce : Nonce} {link : Link}

lemma Reader.run_profile (keeps : b.KeepsRecords holds admits) {store : σ} {records : Records}
    (h : holds store records) (owner : Address) :
    (Reader.profile owner).run b store = (.ok ((records owner).map (·.value)), store) := by
  have hprogram : (Reader.profile owner).program =
      .ask (.loadProfile owner) fun reply =>
        Operation.after (fun found => pure (found.map (·.value))) (reply.mapError .store) :=
    Operation.program_ask_bind ..
  change Program.run b (Reader.profile owner).program store = _
  rw [hprogram, Program.run, keeps.load h]
  rfl

theorem Published.readsBack (keeps : b.Keeps rep) (hrep : rep s.store k) (hsound : Sound k chains s)
    (keeps' : b.KeepsRecords holds admits) (hlogged : Logged holds admits s)
    (h : Published s p namespaceName d chainId signedAt nonce link)
    (hinvertible : p.keypair.Invertible link.body.signingDigest) :
    ReadsBack b s p namespaceName chainId link where
  resolve spelling name hspelling hname := by
    obtain ⟨task, receipt, turn, hlast⟩ := h.appended
    obtain ⟨_, -, -, -, hlandings⟩ := hsound.landed_of_receipt turn
    have hl : (⟨task, (p.owner, Text.lower namespaceName), receipt.index⟩ : Landing) ∈
        s.landingsAt (p.owner, Text.lower namespaceName) := by
      have hmem : _ ∈ s.landingsBy task := hlandings ▸ List.mem_singleton_self _
      simp [System.landingsAt, (List.mem_filter.1 hmem).1]
    have hw : s.batch? task = some ⟨p.owner, namespaceName, [link]⟩ := by
      rw [System.batch?, turn]
      rfl
    have hlatest := System.latest?_of_last hl hw rfl hlast hname
    have hreads := hsound.readsLatest keeps hrep
    obtain ⟨index, hindex, hsome⟩ := hreads.indexed p.owner spelling
    rw [← hspelling] at hl hlatest
    obtain ⟨i, rfl⟩ := Option.isSome_iff_exists.1 (hsome.2 (List.ne_nil_of_mem hl))
    rw [← hlatest]
    exact (hreads.agree _ _ i hindex).resolve name
  verify := by
    obtain ⟨task, validFrom, validTo, fingerprint, hfrom, hto, turn, hlast⟩ := h.registered
    have hkey := hlogged.key?_of_registered turn hlast hinvertible.decodes
    cases hrecord : Log.records s.events p.owner with
    | none =>
      rw [hrecord] at hkey
      cases hkey
    | some record =>
      rw [hrecord] at hkey
      refine ⟨record.value, ?_, fun requireRegisteredKey c hchain => ?_⟩
      · rw [Reader.run_profile keeps' hlogged.records, hrecord, Option.map_some]
      · have hactive : (p.signingKey validFrom validTo).ActiveAt signedAt :=
          ⟨hfrom, hto, by rintro _ ⟨⟩⟩
        obtain ⟨v, hv, hpassed⟩ := Publisher.exists_passed (LinkDraft.signed_of_sign h.signed)
          hinvertible hchain hkey hactive requireRegisteredKey
        exact ⟨v, congrArg (Except.mapError OperationError.verify) hv, hpassed⟩

end

lemma Call.preserves_storable {c : Call} (h : c.KeepsStorable) :
    c.Preserves Profile.Storable := by
  intro q hq
  refine c.edit_induction hq hq.putKey (fun _ _ _ => hq.revoke) ?_
  rintro p edit rfl
  exact h q hq

/-- Whatever other calls are made, in a store in memory and in one of rows: what a publisher has
signed and appended is read back, and passes against the profile that holds its key. -/
theorem published_links_pass {p : Publisher} {namespaceName : String} {d : LinkDraft}
    {chainId signedAt : UInt64} {nonce : Nonce} {link : Link}
    (hinvertible : p.keypair.Invertible link.body.signingDigest) :
    (∀ s : System Memory, System.Run Memory.backend (.start .empty) s → s.CollisionFree →
      Published s p namespaceName d chainId signedAt nonce link →
        ReadsBack Memory.backend s p namespaceName chainId link) ∧
    ∀ s : System Rows, System.Run Rows.backend (.start .fresh) s → s.CollisionFree →
      (∀ state ∈ s.tasks, state.call.KeepsStorable) →
      Published s p namespaceName d chainId signedAt nonce link →
        ReadsBack Rows.backend s p namespaceName chainId link := by
  constructor
  · intro s hrun hfree hpublished
    obtain ⟨k, chains, hrep, -, hsound⟩ :=
      (Sound.start Memory.empty).run Memory.backend_keeps Memory.contents_empty hrun hfree
    have hlogged := (Logged.start Memory.keepsRecords rfl).run Memory.keepsRecords hrun
      fun _ _ _ _ => trivial
    exact hpublished.readsBack Memory.backend_keeps hrep hsound Memory.keepsRecords hlogged
      hinvertible
  · intro s hrun hfree hstorable hpublished
    obtain ⟨k, chains, hrep, -, hsound⟩ :=
      (Sound.start Rows.fresh).run Rows.backend_keeps Rows.represents_fresh hrun hfree
    have hlogged := (Logged.start Rows.keepsRecords .fresh).run Rows.keepsRecords hrun
      fun state hstate => Call.preserves_storable (hstorable state hstate)
    exact hpublished.readsBack Rows.backend_keeps hrep hsound Rows.keepsRecords hlogged hinvertible

namespace System

lemma call?_of_run {s t : System σ} (hrun : Run b s t) {i : Nat} {c : Call}
    (h : s.call? i = some c) : t.call? i = some c := by
  induction hrun with
  | refl => exact h
  | tail _ hstep ih =>
    cases hstep with
    | «begin» new fits => exact call?_called ih new
    | serve turn => exact (call?_replied turn i).trans ih
    | refuse turn e => exact (call?_replied turn i).trans ih

def refused (s : System σ) (task : Nat) (e : StoreError) : System σ :=
  match s.tasks[task]? with
  | some ⟨call, .ask r next⟩ => s.replied s.store task call r (.error e) (next (.error e))
  | _ => s

lemma run_refused (b : Backend σ) (s : System σ) (task : Nat) (e : StoreError) :
    Run b s (s.refused task e) := by
  unfold refused
  split
  · rename_i turn
    exact .single (.refuse turn e)
  · exact .refl

end System

def Task.Answered (t : Task) : Bool :=
  match t.rest with
  | .done (.ok _) => true
  | _ => false

lemma System.exists_answer {s : System σ} {i : Nat} {c : Call} (hcall : s.call? i = some c)
    (h : (s.tasks[i]?).any Task.Answered = true) :
    ∃ answer, s.tasks[i]? = some ⟨c, .done (.ok answer)⟩ := by
  obtain ⟨⟨call, rest⟩, ht, hc⟩ := Option.map_eq_some_iff.1 hcall
  cases hc
  rw [ht] at h ⊢
  cases rest with
  | ask r next => cases h
  | done outcome =>
    cases outcome with
    | error e => cases h
    | ok answer => exact ⟨answer, rfl⟩

lemma mem_later_of_map {α : Type} {f : α → Nat} {items before after : List α} {item : α} {i : Nat}
    {later : List Nat} (h : items.map f = i :: later) (hsplit : items = before ++ item :: after) :
    ∀ a ∈ after, f a ∈ later := by
  intro a ha
  rw [hsplit] at h
  cases before with
  | nil =>
    obtain ⟨-, rfl⟩ := List.cons.inj h
    exact List.mem_map_of_mem ha
  | cons first before =>
    obtain ⟨-, rfl⟩ := List.cons.inj h
    exact List.mem_map_of_mem (List.mem_append_right _ (List.mem_cons_of_mem _ ha))

/-- The secret multiplier of the sample's signature. -/
def signedLinkMultiplier : Ecdsa.Scalar :=
  ⟨80462317569520788964167090907486215881248136427426602540868228598369091591927, by decide +kernel,
    by decide +kernel⟩

/-- The generator's state after the first seeding with the secret and the digest. -/
def seededOnce : Ecdsa.Drbg :=
  ⟨BigEndian.digits 32 0x0da5ae96026a7d3f6f6a09bae556ede3aa181dc18dd4e50c728d296a5bfa5b0a,
    BigEndian.digits 32 0x427f76bdd7a95ad5e767db4825398150b65e9d40ab8a701d63fac077ea37b9c9⟩

def seededTwice : Ecdsa.Drbg :=
  ⟨BigEndian.digits 32 0x175867017e31610f0b3666987bda4c0546b4fb94bfe5edcb16475b9f3f2d8b40,
    BigEndian.digits 32 0xf6f2fb4d09807113ca0c109aa965a350ba9af59dc20f7431b3c266cf58e43811⟩

def signedLinkSeed : Bytes :=
  BigEndian.digits 32 samplePublisher.keypair.secret.value ++ Verifier.signedLinkDigest.bytes

lemma multiplier_signedLink : Ecdsa.multiplier? samplePublisher.keypair.secret
    Verifier.signedLinkDigest = some signedLinkMultiplier := by
  -- one keyed hash at a time, since the evaluation of all five at once takes gigabytes
  have hkey : Sha256.keyed (List.replicate 32 0x00)
      (List.replicate 32 0x01 ++ 0x00 :: signedLinkSeed) = seededOnce.key := by decide +kernel
  have hvalue : Sha256.keyed seededOnce.key (List.replicate 32 0x01) = seededOnce.value := by
    decide +kernel
  have hkey' : Sha256.keyed seededOnce.key (seededOnce.value ++ 0x01 :: signedLinkSeed) =
      seededTwice.key := by decide +kernel
  have hvalue' : Sha256.keyed seededTwice.key seededOnce.value = seededTwice.value := by
    decide +kernel
  have hcandidate : Ecdsa.Scalar.ofNat? (BigEndian.value (Sha256.keyed seededTwice.key
      seededTwice.value)) = some signedLinkMultiplier := by decide +kernel
  have hseeded : Ecdsa.Drbg.seeded signedLinkSeed = seededTwice := by
    simp only [Ecdsa.Drbg.seeded, Ecdsa.Drbg.mix, hkey, hvalue, hkey', hvalue']
  rw [Ecdsa.multiplier?, ← signedLinkSeed, hseeded]
  simp only [Ecdsa.Drbg.next?, hcandidate]

lemma sign_signedLinkDigest : ∃ pair odd,
    Ecdsa.sign? samplePublisher.keypair.secret Verifier.signedLinkDigest = some (pair, odd) ∧
      Signature.ofParts pair odd = Verifier.signedLink.signature ∧
      Ecdsa.recover? pair odd Verifier.signedLinkDigest = some samplePublisher.keypair.point := by
  have hparts : ((Ecdsa.signWith? samplePublisher.keypair.secret signedLinkMultiplier
      Verifier.signedLinkDigest).map fun signed => (Signature.ofParts signed.1 signed.2,
        Ecdsa.recover? signed.1 signed.2 Verifier.signedLinkDigest)) =
      some (Verifier.signedLink.signature, some samplePublisher.keypair.point) := by
    decide +kernel
  obtain ⟨⟨pair, odd⟩, hsign, hresult⟩ := Option.map_eq_some_iff.1 hparts
  obtain ⟨hsignature, hrecover⟩ := Prod.mk.inj hresult
  refine ⟨pair, odd, ?_, hsignature, hrecover⟩
  rw [Ecdsa.sign?, multiplier_signedLink, Option.bind_some]
  exact hsign

lemma sign_signedLink : (LinkDraft.plain "Größe" "Qm1").sign (some samplePublisher.keypair)
    samplePublisher.wallet 1 0 ⟨.replicate 16 1⟩ = .ok Verifier.signedLink := by
  have hbody : (LinkDraft.plain "Größe" "Qm1").body 1 (samplePublisher.wallet.getD
      samplePublisher.keypair.address) 0 ⟨.replicate 16 1⟩ = .ok Verifier.signedLink.body := rfl
  have hvalid : Verifier.signedLink.body.validate = .ok () := by decide
  obtain ⟨pair, odd, hsign, hsignature, -⟩ := sign_signedLinkDigest
  have hsigned : samplePublisher.keypair.sign? Verifier.signedLink.body.signingDigest =
      some Verifier.signedLink.signature := by
    rw [Verifier.signingDigest_signedLink, Keypair.sign?, hsign, ← hsignature, Option.map_some]
  exact LinkDraft.sign_eq hbody hvalid hsigned

lemma samplePublisher_invertible :
    samplePublisher.keypair.Invertible Verifier.signedLink.body.signingDigest where
  recovers pair odd hsign := by
    obtain ⟨pair', odd', hsign', -, hrecover⟩ := sign_signedLinkDigest
    rw [Verifier.signingDigest_signedLink] at hsign ⊢
    obtain ⟨rfl, rfl⟩ := Prod.mk.inj (Option.some.inj (hsign'.symm.trans hsign))
    exact hrecover
  decodes := by decide +kernel

def publishing (store : σ) : System σ :=
  ((System.start store).called (.registerKey samplePublisher 0 none)).called
    (.append samplePublisher "Docs" [Verifier.signedLink])

lemma run_publishing (b : Backend σ) (store : σ) :
    System.Run b (.start store) (publishing store) := by
  refine .head (.begin _ ?_) (.single (.begin _ fun w h => ?_))
  · nofun
  · cases h
    refine ⟨(by decide : 1 < UInt64.size), List.forall_mem_singleton.2 ?_⟩
    exact ⟨by decide, by decide, nofun, nofun⟩

lemma calls_of_publishing {store : σ} {s : System σ} (hrun : System.Run b (publishing store) s) :
    s.call? 0 = some (.registerKey samplePublisher 0 none) ∧
      s.call? 1 = some (.append samplePublisher "Docs" [Verifier.signedLink]) :=
  ⟨System.call?_of_run hrun rfl, System.call?_of_run hrun rfl⟩

lemma published_of_run {store : σ} {s : System σ} (hrun : System.Run b (publishing store) s)
    (hregistered : (s.tasks[0]?).any Task.Answered = true)
    (happended : (s.tasks[1]?).any Task.Answered = true) {later : List Nat}
    (hrevisions : (Log.revisionsAt s.events samplePublisher.owner).map (·.task) = 0 :: later)
    (hlater : ∀ i ∈ later, i = 1)
    (hlandings : (s.landingsAt (samplePublisher.owner, Text.lower "Docs")).map (·.task) = [1]) :
    Published s samplePublisher "Docs" (.plain "Größe" "Qm1") 1 0 ⟨.replicate 16 1⟩
      Verifier.signedLink where
  signed := sign_signedLink
  registered := by
    obtain ⟨hcall, hother⟩ := calls_of_publishing hrun
    obtain ⟨fingerprint, turn⟩ := System.exists_answer hcall hregistered
    refine ⟨0, 0, none, fingerprint, by decide, nofun, turn, ?_⟩
    intro before r after hsplit _ r' hr' c hc
    rw [hlater _ (mem_later_of_map hrevisions hsplit r' hr'), hother] at hc
    cases hc
    exact id
  appended := by
    obtain ⟨receipt, turn⟩ := System.exists_answer (calls_of_publishing hrun).2 happended
    refine ⟨1, receipt, turn, ?_⟩
    intro before l after hsplit _ l' hl'
    exact absurd (mem_later_of_map hlandings hsplit l' hl') List.not_mem_nil

def publishedMemory : System Memory :=
  (publishing Memory.empty).schedule Memory.backend [0, 0, 1, 1, 1, 1, 1, 1]

/-- The append has landed, but could not bring the profile up to date. -/
def publishedRows : System Rows :=
  ((publishing Rows.fresh).schedule Rows.backend [0, 0, 1, 1, 1]).refused 1 (.unavailable .offline)

lemma publishedMemory_run : System.Run Memory.backend (publishing .empty) publishedMemory :=
  System.run_schedule ..

lemma publishedRows_run : System.Run Rows.backend (publishing .fresh) publishedRows :=
  (System.run_schedule ..).trans (System.run_refused ..)

lemma publishedMemory_published : Published publishedMemory samplePublisher "Docs"
    (.plain "Größe" "Qm1") 1 0 ⟨.replicate 16 1⟩ Verifier.signedLink := by
  have hrevisions : (Log.revisionsAt publishedMemory.events samplePublisher.owner).map (·.task) =
      [0, 1] := by decide +kernel
  exact published_of_run publishedMemory_run (by decide +kernel) (by decide +kernel) hrevisions
    (by decide) (by decide +kernel)

lemma publishedRows_published : Published publishedRows samplePublisher "Docs"
    (.plain "Größe" "Qm1") 1 0 ⟨.replicate 16 1⟩ Verifier.signedLink := by
  have hrevisions : (Log.revisionsAt publishedRows.events samplePublisher.owner).map (·.task) =
      [0] := by decide +kernel
  exact published_of_run publishedRows_run (by decide +kernel) (by decide +kernel) hrevisions
    nofun (by decide +kernel)

lemma publishedMemory_collisionFree : publishedMemory.CollisionFree := by
  have hbytes : publishedMemory.storedBytes = [Chunk.bytes ⟨none, [Verifier.signedLink]⟩] := by
    decide +kernel
  exact System.collisionFree_of_singleton hbytes

lemma publishedRows_collisionFree : publishedRows.CollisionFree := by
  have hbytes : publishedRows.storedBytes = [Chunk.bytes ⟨none, [Verifier.signedLink]⟩] := by
    decide +kernel
  exact System.collisionFree_of_singleton hbytes

lemma forall_call_of_publishing {store : σ} {s : System σ} (hrun : System.Run b (publishing store) s)
    (hlength : s.tasks.length = 2) {P : Call → Prop}
    (hregister : P (.registerKey samplePublisher 0 none))
    (happend : P (.append samplePublisher "Docs" [Verifier.signedLink])) :
    ∀ state ∈ s.tasks, P state.call := by
  obtain ⟨hfirst, hsecond⟩ := calls_of_publishing hrun
  intro state hstate
  obtain ⟨i, hi⟩ := List.getElem?_of_mem hstate
  have hcall := System.call?_of_task hi
  obtain ⟨hlt, -⟩ := List.getElem?_eq_some_iff.1 hi
  obtain rfl | rfl : i = 0 ∨ i = 1 := by omega
  · rwa [← Option.some.inj (hfirst.symm.trans hcall)]
  · rwa [← Option.some.inj (hsecond.symm.trans hcall)]

lemma length_tasks_publishedRows : publishedRows.tasks.length = 2 := by decide +kernel

lemma publishedRows_storable : ∀ state ∈ publishedRows.tasks, state.call.KeepsStorable :=
  forall_call_of_publishing publishedRows_run length_tasks_publishedRows trivial trivial

/-- The chain of the sample's wallet answers about its publisher. -/
lemma walletChain_answers : samplePublisher.AnsweredBy 1 Verifier.walletChain := by
  refine ⟨rfl, rfl, List.not_mem_nil, ?_⟩
  have haccount : samplePublisher.keypair.address = Verifier.generatorAccount :=
    Verifier.ofPoint_generator
  rw [haccount]
  exact Verifier.deployed_walletChain

theorem signedLink_published :
    samplePublisher.keypair.Invertible Verifier.signedLink.body.signingDigest ∧
      System.Run Memory.backend (.start .empty) publishedMemory ∧ publishedMemory.CollisionFree ∧
      Published publishedMemory samplePublisher "Docs" (.plain "Größe" "Qm1") 1 0
        ⟨.replicate 16 1⟩ Verifier.signedLink ∧
      System.Run Rows.backend (.start .fresh) publishedRows ∧ publishedRows.CollisionFree ∧
      (∀ state ∈ publishedRows.tasks, state.call.KeepsStorable) ∧
      Published publishedRows samplePublisher "Docs" (.plain "Größe" "Qm1") 1 0
        ⟨.replicate 16 1⟩ Verifier.signedLink ∧
      samplePublisher.AnsweredBy 1 Verifier.walletChain ∧
      ReadsBack Memory.backend publishedMemory samplePublisher "Docs" 1 Verifier.signedLink ∧
      ReadsBack Rows.backend publishedRows samplePublisher "Docs" 1 Verifier.signedLink := by
  have hmemory := (run_publishing Memory.backend .empty).trans publishedMemory_run
  have hrows := (run_publishing Rows.backend .fresh).trans publishedRows_run
  have inMemory := (published_links_pass samplePublisher_invertible).1 _ hmemory
    publishedMemory_collisionFree publishedMemory_published
  have inRows := (published_links_pass samplePublisher_invertible).2 _ hrows
    publishedRows_collisionFree publishedRows_storable publishedRows_published
  exact ⟨samplePublisher_invertible, hmemory, publishedMemory_collisionFree,
    publishedMemory_published, hrows, publishedRows_collisionFree, publishedRows_storable,
    publishedRows_published, walletChain_answers, inMemory, inRows⟩

end SignedNames
