import Mathlib
import SignedNames.Proofs.PublishedLinks
import SignedNames.Proofs.Verification

/-!
# Verifying whole namespaces

A namespace is verified link by link, newest first, up to the first link on which there can be no
verdict. An append looks at the name and the payload of a link only, so that links with an unknown
version or an ill-formed signature get in, and one of them is enough to keep a namespace from ever
being verified.
-/
namespace SignedNames

/-- What it takes for a verdict on a link, if the chain can be asked. -/
structure Link.Checkable (l : Link) : Prop where
  version : l.body.schemaVersion = linkVersion
  form : l.signature.WellFormed

namespace Verifier

variable {requireRegisteredKey : Bool} {c : Chain} {p : Profile} {l : Link}

lemma exists_calls_verify (c : Chain) (l : Link) : ∃ made, ∀ calls,
    verify { c with calls := calls } l = ((verify c l).1, { c with calls := calls + made }) := by
  by_cases version : l.body.schemaVersion = linkVersion
  · cases hfault : l.signature.fault? with
    | some fault =>
      refine ⟨0, fun calls => ?_⟩
      simp only [verify, hfault, ite_not, if_pos version]
      rfl
    | none =>
      by_cases own : l.body.chainId = c.chainId
      · cases reachable : c.reachable with
        | false =>
          refine ⟨0, fun calls => ?_⟩
          simp only [verify, Chain.hasCode, hfault, ite_not, if_pos version, if_pos own, reachable]
          rfl
        | true =>
          cases deployed : c.wallets.get? l.body.signerAddress with
          | none =>
            refine ⟨0, fun calls => ?_⟩
            simp only [verify, Chain.hasCode, hfault, ite_not, if_pos version, if_pos own,
              reachable, deployed]
            rfl
          | some w =>
            refine ⟨1, fun calls => ?_⟩
            simp only [verify, Chain.hasCode, Chain.call, Chain.outcome, hfault, ite_not,
              if_pos version, if_pos own, reachable, deployed]
            rfl
      · refine ⟨0, fun calls => ?_⟩
        simp only [verify, hfault, ite_not, if_pos version, if_neg own]
        rfl
  · refine ⟨0, fun calls => ?_⟩
    simp only [verify, ite_not, if_neg version]
    rfl

lemma exists_calls_verifyFor (requireRegisteredKey : Bool) (c : Chain) (p : Profile) (l : Link) :
    ∃ made, ∀ calls, verifyFor requireRegisteredKey { c with calls := calls } p l =
      ((verifyFor requireRegisteredKey c p l).1, { c with calls := calls + made }) := by
  obtain ⟨made, h⟩ := exists_calls_verify c l
  refine ⟨made, fun calls => ?_⟩
  rw [verifyFor, h calls]
  rfl

def IsVerdict (requireRegisteredKey : Bool) (c : Chain) (p : Profile) (l : Link)
    (entry : Link × Verification) : Prop :=
  entry.1 = l ∧ (verifyFor requireRegisteredKey c p l).1 = .ok entry.2

lemma map_fst_of_verdicts {links : List Link} {entries : List (Link × Verification)}
    (h : List.Forall₂ (IsVerdict requireRegisteredKey c p) links entries) :
    entries.map Prod.fst = links := by
  induction h with
  | nil => rfl
  | cons hl _ ih => rw [List.map_cons, hl.1, ih]

variable (requireRegisteredKey p) in
lemma exists_verifyFor (h : l.Checkable) (reachable : c.reachable = true) :
    ∃ v, (verifyFor requireRegisteredKey c p l).1 = .ok v := by
  obtain ⟨report, hreport⟩ := exists_verify h.version h.form fun _ => reachable
  simp only [verifyFor, hreport]
  exact ⟨_, rfl⟩

/-- A chain that can be asked gives no verdict on a link that cannot be checked, and trying again
does not help. -/
lemma verify_of_not_checkable (h : ¬l.Checkable) (reachable : c.reachable = true) :
    ∃ e, (verify c l).1 = .error e ∧ e.transient = false := by
  have rules := verify_rules c l
  generalize (verify c l).1 = outcome at rules ⊢
  cases rules with
  | unsupported => exact ⟨_, rfl, rfl⟩
  | malformed => exact ⟨_, rfl, rfl⟩
  | unavailable _ _ _ outage =>
    rw [reachable] at outage
    cases outage
  | foreign _ version form => exact absurd ⟨version, form⟩ h
  | account _ version form => exact absurd ⟨version, form⟩ h
  | wallet _ version form => exact absurd ⟨version, form⟩ h

variable (requireRegisteredKey p) in
theorem exists_verifyAll_append (reachable : c.reachable = true) {newer : List Link}
    (h : ∀ l ∈ newer, l.Checkable) (rest : List Link) : ∃ entries made,
      List.Forall₂ (IsVerdict requireRegisteredKey c p) newer entries ∧
        ∀ calls, (verifyAll requireRegisteredKey { c with calls := calls } p (newer ++ rest)).1 =
          (verifyAll requireRegisteredKey { c with calls := calls + made } p rest).1.map
            (entries ++ ·) := by
  induction newer with
  | nil =>
    refine ⟨[], 0, .nil, fun calls => ?_⟩
    rw [List.nil_append, Nat.add_zero]
    cases (verifyAll requireRegisteredKey { c with calls := calls } p rest).1 <;> rfl
  | cons l newer ih =>
    obtain ⟨hl, hnewer⟩ := List.forall_mem_cons.1 h
    obtain ⟨v, hv⟩ := exists_verifyFor requireRegisteredKey p hl reachable
    obtain ⟨made, hmade⟩ := exists_calls_verifyFor requireRegisteredKey c p l
    obtain ⟨entries, made', hentries, hall⟩ := ih hnewer
    refine ⟨(l, v) :: entries, made + made', .cons ⟨rfl, hv⟩ hentries, fun calls => ?_⟩
    rw [List.cons_append, verifyAll, hmade calls, hv, ← Nat.add_assoc]
    change (verifyAll requireRegisteredKey _ p (newer ++ rest)).1.map _ = _
    rw [hall (calls + made)]
    cases (verifyAll requireRegisteredKey { c with calls := calls + made + made' } p rest).1 <;> rfl

variable (requireRegisteredKey p) in
theorem exists_verifyAll (reachable : c.reachable = true) {links : List Link}
    (h : ∀ l ∈ links, l.Checkable) : ∃ entries,
      List.Forall₂ (IsVerdict requireRegisteredKey c p) links entries ∧
        (verifyAll requireRegisteredKey c p links).1 = .ok entries := by
  obtain ⟨entries, made, hentries, hall⟩ :=
    exists_verifyAll_append requireRegisteredKey p reachable h []
  have hlinks := hall c.calls
  rw [List.append_nil] at hlinks
  exact ⟨entries, hentries, hlinks.trans (congrArg Except.ok (List.append_nil entries))⟩

/-- The first link on which there can be no verdict ends it. -/
theorem verifyAll_of_not_checkable (reachable : c.reachable = true) {newer older : List Link}
    (h : ∀ l ∈ newer, l.Checkable) {e : VerifyError} (he : (verify c l).1 = .error e) :
    (verifyAll requireRegisteredKey c p (newer ++ l :: older)).1 = .error e := by
  obtain ⟨entries, made, -, hall⟩ :=
    exists_verifyAll_append requireRegisteredKey p reachable h (l :: older)
  obtain ⟨made', hmade⟩ := exists_calls_verifyFor requireRegisteredKey c p l
  have hl : (verifyFor requireRegisteredKey c p l).1 = .error e := by
    simp only [verifyFor, he]
    rfl
  refine (hall c.calls).trans ?_
  rw [verifyAll, hmade (c.calls + made), hl]
  rfl

end Verifier

/-- What verifying a namespace leads to on a chain that can be asked. -/
structure Audited {σ : Type} (b : Backend σ) (s : System σ) (settings : ReaderSettings) (c : Chain)
    (owner : Address) (namespaceName : String) (found : Option Profile) : Prop where
  profile : (Reader.profile owner).run b s.store = (.ok found, s.store)
  /-- If all links can be checked, there is one verdict for each, newest first. -/
  verdicts : (∀ l ∈ (s.committed (owner, Text.lower namespaceName)).flatten, l.Checkable) →
    ∃ entries,
      List.Forall₂ (Verifier.IsVerdict settings.requireRegisteredKey c (found.getD .empty))
        (s.committed (owner, Text.lower namespaceName)).flatten.reverse entries ∧
      (Reader.verifyNamespace settings b owner namespaceName s.store c).1 = .ok entries
  /-- If not, the newest one that cannot be checked is all that is reported. -/
  fails : (∃ l ∈ (s.committed (owner, Text.lower namespaceName)).flatten, ¬l.Checkable) →
    ∃ newer l older e,
      (s.committed (owner, Text.lower namespaceName)).flatten.reverse = newer ++ l :: older ∧
      (∀ l' ∈ newer, l'.Checkable) ∧ ¬l.Checkable ∧ (Verifier.verify c l).1 = .error e ∧
      e.transient = false ∧
      (Reader.verifyNamespace settings b owner namespaceName s.store c).1 = .error (.verify e)

variable {σ : Type} {b : Backend σ}

lemma Reader.verifyNamespace_of_audit {settings : ReaderSettings} {owner : Address}
    {namespaceName : String} {store : σ} {profile : Option Profile} {links : List Link}
    (hprofile : (Reader.profile owner).run b store = (.ok profile, store))
    (hlinks : (Reader.links settings.maxChainWalk owner namespaceName).run b store =
      (.ok links, store)) (c : Chain) :
    (Reader.verifyNamespace settings b owner namespaceName store c).1 =
      (Verifier.verifyAll settings.requireRegisteredKey c (profile.getD .empty)
        links).1.mapError .verify := by
  have haudit : (Reader.audit settings.maxChainWalk owner namespaceName).run b store =
      (.ok (profile.getD .empty, links), store) := by
    change Program.run b (Reader.audit settings.maxChainWalk owner namespaceName).program store = _
    rw [Reader.audit, Operation.program_bind, Program.run_bind]
    change Program.run b (Operation.after _ ((Reader.profile owner).run b store).1)
      ((Reader.profile owner).run b store).2 = _
    rw [hprofile, Operation.after_ok, Operation.program_bind, Program.run_bind]
    change Program.run b (Operation.after _ ((Reader.links _ owner namespaceName).run b store).1)
      ((Reader.links _ owner namespaceName).run b store).2 = _
    rw [hlinks]
    rfl
  rw [Reader.verifyNamespace, haudit]

lemma exists_first_not {α : Type} {P : α → Prop} {items : List α} (h : ∃ a ∈ items, ¬P a) :
    ∃ before a after, items = before ++ a :: after ∧ (∀ a' ∈ before, P a') ∧ ¬P a := by
  classical
  obtain ⟨a, ha, hP⟩ := h
  have hsome : (items.find? fun a => decide ¬P a).isSome :=
    List.find?_isSome.2 ⟨a, ha, decide_eq_true hP⟩
  obtain ⟨first, hfirst⟩ := Option.isSome_iff_exists.1 hsome
  obtain ⟨hnot, before, after, hsplit, hbefore⟩ := List.find?_eq_some_iff_append.1 hfirst
  refine ⟨before, first, after, hsplit, fun a' ha' => ?_, of_decide_eq_true hnot⟩
  simpa using hbefore a' ha'

section

variable {rep : σ → Contents → Prop} {k : Contents} {chains : Address × String → List Chunk}
  {holds : σ → Records → Prop} {admits : Profile → Prop} {records : Records} {s : System σ}
  {settings : ReaderSettings} {c : Chain} {owner : Address} {namespaceName : String}

theorem Sound.audited (keeps : b.Keeps rep) (hrep : rep s.store k) (h : Sound k chains s)
    (keeps' : b.KeepsRecords holds admits) (hrecords : holds s.store records)
    (reachable : c.reachable = true)
    (hlanded : s.landingsAt (owner, Text.lower namespaceName) ≠ [])
    (hlimit : (s.landingsAt (owner, Text.lower namespaceName)).length ≤ settings.maxChainWalk) :
    Audited b s settings c owner namespaceName ((records owner).map (·.value)) := by
  have hprofile := Reader.run_profile keeps' hrecords owner
  have hlinks := (h.exactlyOnce keeps hrep).links owner namespaceName _ hlanded hlimit
  have hverify := Reader.verifyNamespace_of_audit hprofile hlinks c
  refine ⟨hprofile, fun hall => ?_, fun hsome => ?_⟩
  · obtain ⟨entries, hentries, hok⟩ := Verifier.exists_verifyAll settings.requireRegisteredKey
      (((records owner).map (·.value)).getD .empty) reachable
      fun l hl => hall l (List.mem_reverse.1 hl)
    rw [hok] at hverify
    exact ⟨entries, hentries, hverify⟩
  · obtain ⟨blocking, hmem, hblocking⟩ := hsome
    obtain ⟨newer, l, older, hsplit, hnewer, hl⟩ :=
      exists_first_not ⟨blocking, List.mem_reverse.2 hmem, hblocking⟩
    obtain ⟨e, he, htransient⟩ := Verifier.verify_of_not_checkable hl reachable
    rw [hsplit, Verifier.verifyAll_of_not_checkable reachable hnewer he] at hverify
    exact ⟨newer, l, older, e, hsplit, hnewer, hl, he, htransient, hverify⟩

theorem Sound.audited_memory {s : System Memory}
    (hrun : System.Run Memory.backend (.start .empty) s) (hfree : s.CollisionFree)
    (reachable : c.reachable = true)
    (hlanded : s.landingsAt (owner, Text.lower namespaceName) ≠ [])
    (hlimit : (s.landingsAt (owner, Text.lower namespaceName)).length ≤ settings.maxChainWalk) :
    ∃ profile, Audited Memory.backend s settings c owner namespaceName profile := by
  obtain ⟨k, chains, hrep, -, hsound⟩ :=
    (Sound.start Memory.empty).run Memory.backend_keeps Memory.contents_empty hrun hfree
  have hlogged := (Logged.start Memory.keepsRecords rfl).run Memory.keepsRecords hrun
    fun _ _ _ _ => trivial
  exact ⟨_, hsound.audited Memory.backend_keeps hrep Memory.keepsRecords hlogged.records reachable
    hlanded hlimit⟩

end

/-- Whatever calls were made, in a store in memory and in one of rows: on a chain that can be asked,
verifying a namespace gives one verdict for each of its links if all of them can be checked, and
otherwise an error about the newest one that cannot. -/
theorem audited_of_reachable {settings : ReaderSettings} {c : Chain}
    (reachable : c.reachable = true) (owner : Address) (namespaceName : String) :
    (∀ s : System Memory, System.Run Memory.backend (.start .empty) s → s.CollisionFree →
      s.landingsAt (owner, Text.lower namespaceName) ≠ [] →
      (s.landingsAt (owner, Text.lower namespaceName)).length ≤ settings.maxChainWalk →
        ∃ profile, Audited Memory.backend s settings c owner namespaceName profile) ∧
    ∀ s : System Rows, System.Run Rows.backend (.start .fresh) s → s.CollisionFree →
      (∀ state ∈ s.tasks, state.call.KeepsStorable) →
      s.landingsAt (owner, Text.lower namespaceName) ≠ [] →
      (s.landingsAt (owner, Text.lower namespaceName)).length ≤ settings.maxChainWalk →
        ∃ profile, Audited Rows.backend s settings c owner namespaceName profile := by
  constructor
  · exact fun s hrun hfree => Sound.audited_memory hrun hfree reachable
  · intro s hrun hfree hstorable hlanded hlimit
    obtain ⟨k, chains, hrep, -, hsound⟩ :=
      (Sound.start Rows.fresh).run Rows.backend_keeps Rows.represents_fresh hrun hfree
    have hlogged := (Logged.start Rows.keepsRecords .fresh).run Rows.keepsRecords hrun
      fun state hstate => Call.preserves_storable (hstorable state hstate)
    exact ⟨_, hsound.audited Rows.backend_keeps hrep Rows.keepsRecords hlogged.records reachable
      hlanded hlimit⟩

lemma fault?_sampleLink : sampleLink.signature.fault? = some .scalarRange := by decide +kernel

lemma sampleLink_not_checkable : ¬sampleLink.Checkable := by
  intro h
  have hnone := sampleLink.signature.fault?_eq_none_iff.2 h.form
  rw [fault?_sampleLink] at hnone
  cases hnone

/-- The link that was signed, and then one with zeros in place of a signature. -/
def mixedCall : Call := .append samplePublisher "Docs" [Verifier.signedLink, sampleLink]

def mixedSystem : System Memory :=
  ((System.start Memory.empty).called mixedCall).schedule Memory.backend [0, 0, 0, 0, 0, 0]

lemma mixedSystem_run : System.Run Memory.backend (.start .empty) mixedSystem := by
  refine .head (.begin mixedCall fun w h => ?_) (System.run_schedule ..)
  cases h
  refine ⟨(by decide : 2 < UInt64.size), ?_⟩
  simp only [List.forall_mem_cons, List.not_mem_nil, false_implies, implies_true, and_true]
  exact ⟨⟨by decide, by decide, nofun, nofun⟩, by decide, by decide, nofun, nofun⟩

lemma mixedSystem_collisionFree : mixedSystem.CollisionFree := by
  have hbytes : mixedSystem.storedBytes =
      [Chunk.bytes ⟨none, [Verifier.signedLink, sampleLink]⟩] := by
    decide +kernel
  exact System.collisionFree_of_singleton hbytes

lemma mixedSystem_answered :
    ∃ receipt, mixedSystem.tasks[0]? = some ⟨mixedCall, .done (.ok receipt)⟩ := by
  refine System.exists_answer ?_ (by decide +kernel)
  exact System.call?_of_run (s := (System.start Memory.empty).called mixedCall)
    (System.run_schedule Memory.backend _ _) rfl

lemma length_landingsAt_mixedSystem :
    (mixedSystem.landingsAt (samplePublisher.owner, Text.lower "Docs")).length = 1 := by
  decide +kernel

lemma committed_mixedSystem : mixedSystem.committed (samplePublisher.owner, Text.lower "Docs") =
    [[Verifier.signedLink, sampleLink]] := by
  decide +kernel

lemma committed_publishedRows : publishedRows.committed (samplePublisher.owner, Text.lower "Docs") =
    [[Verifier.signedLink]] := by
  decide +kernel

lemma Audited.of_mixedSystem {found : Option Profile}
    (h : Audited Memory.backend mixedSystem .standard Verifier.walletChain samplePublisher.owner
      "Docs" found) :
    (Reader.verifyNamespace .standard Memory.backend samplePublisher.owner "Docs" mixedSystem.store
      Verifier.walletChain).1 = .error (.verify (.malformedSignature .scalarRange)) := by
  have hsome := h.fails
  rw [committed_mixedSystem] at hsome
  obtain ⟨newer, l, older, e, hsplit, hnewer, -, he, -, hverify⟩ :=
    hsome ⟨sampleLink, by simp, sampleLink_not_checkable⟩
  have hreverse : [sampleLink, Verifier.signedLink] = newer ++ l :: older := hsplit
  cases newer with
  | nil =>
    obtain ⟨rfl, -⟩ := List.cons.inj hreverse
    cases he
    exact hverify
  | cons first newer =>
    obtain ⟨rfl, -⟩ := List.cons.inj hreverse
    exact absurd (hnewer _ (List.mem_cons_self ..)) sampleLink_not_checkable

/-- Everything that was appended was accepted, and still the namespace cannot be verified. -/
theorem accepted_link_blocks_verification :
    System.Run Memory.backend (.start .empty) mixedSystem ∧ mixedSystem.CollisionFree ∧
      (∃ receipt, mixedSystem.tasks[0]? = some ⟨mixedCall, .done (.ok receipt)⟩) ∧
      (mixedSystem.landingsAt (samplePublisher.owner, Text.lower "Docs")).length ≤
        ReaderSettings.standard.maxChainWalk ∧
      Verifier.walletChain.reachable = true ∧
      (Reader.verifyNamespace .standard Memory.backend samplePublisher.owner "Docs"
        mixedSystem.store Verifier.walletChain).1 =
          .error (.verify (.malformedSignature .scalarRange)) := by
  have hlength := length_landingsAt_mixedSystem
  have hlimit : (mixedSystem.landingsAt (samplePublisher.owner, Text.lower "Docs")).length ≤
      ReaderSettings.standard.maxChainWalk := by
    rw [hlength]
    decide
  obtain ⟨found, haudited⟩ := Sound.audited_memory (c := Verifier.walletChain) mixedSystem_run
    mixedSystem_collisionFree rfl (List.ne_nil_of_length_eq_add_one hlength) hlimit
  exact ⟨mixedSystem_run, mixedSystem_collisionFree, mixedSystem_answered, hlimit, rfl,
    haudited.of_mixedSystem⟩

/-- A namespace with a link that cannot be checked, and one whose only link has its verdict. -/
theorem sample_namespaces_audited :
    Verifier.walletChain.reachable = true ∧
      System.Run Memory.backend (.start .empty) mixedSystem ∧ mixedSystem.CollisionFree ∧
      (Reader.verifyNamespace .standard Memory.backend samplePublisher.owner "Docs"
        mixedSystem.store Verifier.walletChain).1 =
          .error (.verify (.malformedSignature .scalarRange)) ∧
      System.Run Rows.backend (.start .fresh) publishedRows ∧ publishedRows.CollisionFree ∧
      (∀ state ∈ publishedRows.tasks, state.call.KeepsStorable) ∧
      ∃ v, (Reader.verifyNamespace .standard Rows.backend samplePublisher.owner "Docs"
        publishedRows.store Verifier.walletChain).1 = .ok [(Verifier.signedLink, v)] := by
  have hlength : (publishedRows.landingsAt (samplePublisher.owner, Text.lower "Docs")).length = 1 :=
    by decide +kernel
  have hrows := (run_publishing Rows.backend .fresh).trans publishedRows_run
  obtain ⟨inMemory, inRows⟩ :=
    @audited_of_reachable .standard Verifier.walletChain rfl samplePublisher.owner "Docs"
  obtain ⟨found, haudited⟩ := inMemory mixedSystem mixedSystem_run mixedSystem_collisionFree
    (List.ne_nil_of_length_eq_add_one length_landingsAt_mixedSystem)
    (length_landingsAt_mixedSystem ▸ by decide)
  obtain ⟨found', haudited'⟩ := inRows publishedRows hrows publishedRows_collisionFree
    publishedRows_storable (List.ne_nil_of_length_eq_add_one hlength) (hlength ▸ by decide)
  have hverdicts := haudited'.verdicts
  rw [committed_publishedRows] at hverdicts
  obtain ⟨entries, hentries, hverify⟩ := hverdicts fun l hl => by
    rw [List.mem_singleton.1 hl]
    exact ⟨rfl, Verifier.signedLink_wellFormed⟩
  obtain ⟨⟨l, v⟩, rfl, hl⟩ := List.map_eq_singleton_iff.1 (Verifier.map_fst_of_verdicts hentries)
  exact ⟨rfl, mixedSystem_run, mixedSystem_collisionFree, haudited.of_mixedSystem, hrows,
    publishedRows_collisionFree, publishedRows_storable, v, hl ▸ hverify⟩

end SignedNames
