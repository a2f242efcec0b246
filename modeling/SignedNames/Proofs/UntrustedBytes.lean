import Mathlib
import SignedNames.Proofs.IndexedChains
import SignedNames.Proofs.Reading
import SignedNames.Store.Rows

/-!
# Reading from stores that are not trusted

A store may hold anything under an identifier. Since every chunk is checked against the identifier
it was asked for by, and names the next one to ask for, whoever gets an answer from such a store gets
the same answer as from any other.
-/
namespace SignedNames

theorem Memory.backend_offers (m : Memory) : Memory.backend.Offers m m.blobs.get? := by
  intro cid
  rw [backend]
  cases m.blobs.get? cid <;> rfl

theorem Rows.backend_offers (r : Rows) :
    Rows.backend.Offers r fun cid => r.blobs.get? cid.text := by
  intro cid
  simp only [backend]
  cases r.blobs.get? cid.text <;> rfl

/-- Bytes of one map and bytes of another that have the same identifier are the same. -/
def Unambiguous (blob? blob'? : Cid → Option Bytes) : Prop :=
  ∀ cid cid' bs bs', blob? cid = some bs → blob'? cid' = some bs' →
    Cid.ofBytes bs = Cid.ofBytes bs' → bs = bs'

theorem Genuine.unique {blob? blob'? : Cid → Option Bytes} (hfree : Unambiguous blob? blob'?)
    {cid : Cid} {c c' : Chunk} (h : Genuine blob? cid c) (h' : Genuine blob'? cid c') : c = c' := by
  obtain ⟨bs, hbs, hcid, hdecode⟩ := h
  obtain ⟨bs', hbs', hcid', hdecode'⟩ := h'
  have heq : bs = bs' := hfree _ _ _ _ hbs hbs' (hcid.trans hcid'.symm)
  rw [heq, hdecode'] at hdecode
  exact (Except.ok.inj hdecode).symm

section

variable {σ : Type} {b : Backend σ} {s : σ} {blob? : Cid → Option Bytes}

lemma run_getChunk (h : b.Offers s blob?) (cid : Cid) :
    ∃ outcome, (Operation.access (Access.getChunk cid)).program.run b s = (outcome, s) ∧
      ∀ c, outcome = .ok c → Genuine blob? cid c := by
  rw [Access.getChunk, Operation.program_access_bind, Program.run, h cid]
  cases hblob : blob? cid with
  | none => exact ⟨_, rfl, by rintro _ ⟨⟩⟩
  | some bs =>
    change ∃ outcome, (Operation.afterReply _ (.ok bs)).run b s = _ ∧ _
    rw [Operation.afterReply]
    by_cases hcid : Cid.ofBytes bs = cid
    · rw [if_pos hcid]
      cases hdecode : Chunk.decode bs with
      | error e => exact ⟨_, rfl, by rintro _ ⟨⟩⟩
      | ok c =>
        refine ⟨_, rfl, fun c' hc' => ?_⟩
        cases hc'
        exact ⟨bs, hblob, hcid, hdecode⟩
    · rw [if_neg hcid]
      exact ⟨_, rfl, by rintro _ ⟨⟩⟩

lemma ok_of_getChunk_bind {α : Type} (h : b.Offers s blob?) {cid : Cid} {f : Chunk → Operation α}
    {result : α}
    (hrun : ((Operation.access (Access.getChunk cid) >>= f).run b s).1 = .ok result) :
    ∃ c, Genuine blob? cid c ∧ ((f c).run b s).1 = .ok result := by
  obtain ⟨outcome, hfetch, hgenuine⟩ := run_getChunk h cid
  change (Program.run b (Operation.program _) s).1 = _ at hrun
  rw [Operation.program_bind, Program.run_bind, hfetch] at hrun
  cases outcome with
  | error e => cases hrun
  | ok c => exact ⟨c, hgenuine c rfl, hrun⟩

end

namespace Reader

/-- A walk over genuine chunks, each named by the one before, and its result. -/
inductive Walked {α β : Type} (blob? : Cid → Option Bytes) (take : α → Chunk → α ⊕ β)
    (finish : α → β) : α → Option Cid → β → Prop
  | ended (state : α) : Walked blob? take finish state none (finish state)
  | further {state state' : α} {cid : Cid} {c : Chunk} {result : β}
    (genuine : Genuine blob? cid c) (taken : take state c = .inl state')
    (rest : Walked blob? take finish state' c.prev result) :
    Walked blob? take finish state (some cid) result
  | stopped {state : α} {cid : Cid} {c : Chunk} {result : β} (genuine : Genuine blob? cid c)
    (taken : take state c = .inr result) : Walked blob? take finish state (some cid) result

section

variable {α β : Type} {take : α → Chunk → α ⊕ β} {finish : α → β}

/-- Two walks from the same identifier go over the same chunks. -/
theorem Walked.unique {blob? blob'? : Cid → Option Bytes} (hfree : Unambiguous blob? blob'?)
    {state : α} {next : Option Cid} {result result' : β}
    (h : Walked blob? take finish state next result)
    (h' : Walked blob'? take finish state next result') : result = result' := by
  induction h with
  | ended state =>
    cases h'
    rfl
  | further genuine taken _ ih =>
    cases h' with
    | further genuine' taken' rest' =>
      cases genuine.unique hfree genuine'
      cases taken.symm.trans taken'
      exact ih rest'
    | stopped genuine' taken' =>
      cases genuine.unique hfree genuine'
      cases taken.symm.trans taken'
  | stopped genuine taken =>
    cases h' with
    | further genuine' taken' _ =>
      cases genuine.unique hfree genuine'
      cases taken.symm.trans taken'
    | stopped genuine' taken' =>
      cases genuine.unique hfree genuine'
      cases taken.symm.trans taken'
      rfl

variable {σ : Type} {b : Backend σ} {s : σ} {blob? : Cid → Option Bytes}

theorem walked_of_run (h : b.Offers s blob?) {limit remaining : Nat} {seen : List Cid} {state : α}
    {next : Option Cid} {result : β}
    (hrun : ((walk limit take finish remaining seen state next).run b s).1 = .ok result) :
    Walked blob? take finish state next result := by
  induction remaining generalizing seen state next with
  | zero =>
    cases next with
    | none =>
      cases hrun
      exact .ended state
    | some cid =>
      rw [walk] at hrun
      split at hrun <;> cases hrun
  | succ remaining ih =>
    cases next with
    | none =>
      rw [walk] at hrun
      cases hrun
      exact .ended state
    | some cid =>
      rw [walk] at hrun
      split at hrun
      · cases hrun
      · obtain ⟨c, hgenuine, hrest⟩ := ok_of_getChunk_bind h hrun
        cases htake : take state c with
        | inl state' =>
          rw [htake] at hrest
          exact .further hgenuine htake (ih hrest)
        | inr result' =>
          rw [htake] at hrest
          cases hrest
          exact .stopped hgenuine htake

end

variable {σ : Type} {b : Backend σ} {s : σ} {blob? : Cid → Option Bytes}

lemma run_index_bind {α : Type} {owner : Address} {namespaceName : String} {i : NameIndex}
    (hi : b (.loadIndex owner namespaceName) s = (.ok (some i), s)) (f : NameIndex → Operation α) :
    (index owner namespaceName >>= f).run b s = (f i).run b s := by
  change Program.run b (Operation.program _) s = _
  rw [index, Operation.program_bind, Operation.program_ask_bind, Program.bind_ask, Program.run, hi]
  rfl

lemma latest?_of_resolve (h : b.Offers s blob?) {owner : Address} {namespaceName name : String}
    {i : NameIndex} (hi : b (.loadIndex owner namespaceName) s = (.ok (some i), s))
    {found : Option Link} (hrun : ((resolve owner namespaceName name).run b s).1 = .ok found) :
    match i.lookup name with
    | none => found = none
    | some cid => ∃ c, Genuine blob? cid c ∧ c.latest? name = found := by
  rw [resolve, run_index_bind hi] at hrun
  cases hlookup : i.lookup name with
  | none =>
    rw [hlookup] at hrun
    cases hrun
    rfl
  | some cid =>
    rw [hlookup] at hrun
    obtain ⟨c, hgenuine, hrest⟩ := ok_of_getChunk_bind h hrun
    refine ⟨c, hgenuine, ?_⟩
    cases hlatest : c.latest? name with
    | none =>
      rw [hlatest] at hrest
      cases hrest
    | some l =>
      rw [hlatest] at hrest
      cases hrest
      rfl

/-- Two stores may hold anything under every identifier. As long as no bytes of the one have the
identifier of other bytes of the other, all answers that readers get from both are the same: the
links from a head, the link that a profile leads to, and the link that an index leads to. -/
theorem answers_agree_of_offers {σ τ : Type} {b : Backend σ} {b' : Backend τ} {s : σ} {t : τ}
    {blob? blob'? : Cid → Option Bytes} (h : b.Offers s blob?) (h' : b'.Offers t blob'?)
    (hfree : Unambiguous blob? blob'?) :
    (∀ limit limit' head found found',
      ((linksFrom limit head).run b s).1 = .ok found →
      ((linksFrom limit' head).run b' t).1 = .ok found' → found = found') ∧
      (∀ limit limit' profile namespaceName name found found',
        ((resolveInProfile limit profile namespaceName name).run b s).1 = .ok found →
        ((resolveInProfile limit' profile namespaceName name).run b' t).1 = .ok found' →
          found = found') ∧
      ∀ owner namespaceName name i found found',
        b (.loadIndex owner namespaceName) s = (.ok (some i), s) →
        b' (.loadIndex owner namespaceName) t = (.ok (some i), t) →
        ((resolve owner namespaceName name).run b s).1 = .ok found →
        ((resolve owner namespaceName name).run b' t).1 = .ok found' → found = found' := by
  refine ⟨?_, ?_, ?_⟩
  · intro limit limit' head found found' hrun hrun'
    exact (walked_of_run h hrun).unique hfree (walked_of_run h' hrun')
  · intro limit limit' profile namespaceName name found found' hrun hrun'
    rw [resolveInProfile] at hrun hrun'
    cases hhead : profile.head? namespaceName with
    | none =>
      rw [hhead] at hrun
      cases hrun
    | some head =>
      rw [hhead] at hrun hrun'
      exact (walked_of_run h hrun).unique hfree (walked_of_run h' hrun')
  · intro owner namespaceName name i found found' hi hi' hrun hrun'
    have hlatest := latest?_of_resolve h hi hrun
    have hlatest' := latest?_of_resolve h' hi' hrun'
    cases hlookup : i.lookup name with
    | none =>
      simp only [hlookup] at hlatest hlatest'
      rw [hlatest, hlatest']
    | some cid =>
      simp only [hlookup] at hlatest hlatest'
      obtain ⟨c, hgenuine, rfl⟩ := hlatest
      obtain ⟨c', hgenuine', rfl⟩ := hlatest'
      rw [hgenuine.unique hfree hgenuine']

def sampleChunk : Chunk := ⟨none, [sampleLink]⟩

def shelfSample : Memory :=
  ⟨Table.empty.set sampleChunk.cid sampleChunk.bytes,
    Table.empty.set (sampleLink.body.signerAddress, Text.lower "Docs")
      (.advance none sampleChunk.cid sampleChunk), .empty⟩

/-- The same with the bytes of the chunk under an identifier that is not theirs. -/
def hostileSample : Memory := shelfSample.putUnchecked ⟨.replicate 32 0⟩ sampleChunk.bytes

lemma shelfSample_blob {cid : Cid} {bs : Bytes} (h : shelfSample.blobs.get? cid = some bs) :
    bs = sampleChunk.bytes := by
  simp only [shelfSample, Table.get?_set, Table.get?_empty, Option.ite_none_right_eq_some,
    Option.some.injEq] at h
  exact h.2.symm

lemma hostileSample_blob {cid : Cid} {bs : Bytes} (h : hostileSample.blobs.get? cid = some bs) :
    bs = sampleChunk.bytes := by
  rw [hostileSample, Memory.putUnchecked, Table.get?_set] at h
  split at h
  · exact (Option.some.inj h).symm
  · exact shelfSample_blob h

lemma samples_unambiguous : Unambiguous shelfSample.blobs.get? hostileSample.blobs.get? := by
  intro cid cid' bs bs' hbs hbs' _
  rw [shelfSample_blob hbs, hostileSample_blob hbs']

lemma sampleChunk_fits : sampleChunk.Fits := by
  refine ⟨by decide, List.forall_mem_singleton.2 ?_⟩
  exact ⟨by decide, by decide, nofun, nofun⟩

lemma shelved_sampleChunk {m : Memory}
    (hblob : m.blobs.get? sampleChunk.cid = some sampleChunk.bytes)
    (hindexes : m.indexes = shelfSample.indexes) :
    Shelved m.contents (sampleLink.body.signerAddress, Text.lower "Docs") [sampleChunk] := by
  refine ⟨⟨rfl, trivial⟩, List.forall_mem_singleton.2 ⟨sampleChunk_fits, hblob⟩, ?_⟩
  simp only [Memory.contents, hindexes, shelfSample, Table.get?_set, if_true]
  rfl

def sampleProfile : Profile := Profile.empty.setHead "Docs" sampleChunk.cid

lemma ok_of_shelved {m : Memory}
    (h : Shelved m.contents (sampleLink.body.signerAddress, Text.lower "Docs") [sampleChunk]) :
    (∃ found, ((linksFrom 1 sampleChunk.cid).run Memory.backend m).1 = .ok found) ∧
      (∃ found, ((resolveInProfile 1 sampleProfile "Docs" "Größe").run Memory.backend m).1 =
        .ok found) ∧
      ∃ found, ((resolve sampleLink.body.signerAddress "Docs" "Größe").run Memory.backend m).1 =
        .ok found := by
  have hhead : sampleProfile.head? "Docs" = some sampleChunk.cid := by
    rw [sampleProfile, Profile.head?, Profile.setHead, NameMap.get?_insert, if_pos rfl]
  have hlinks := (reads_walk 1 (fun links (c : Chunk) => .inl (links ++ c.links.reverse)) id
    h.linked h.kept le_rfl (fun _ _ => List.not_mem_nil) []).run Memory.backend_keeps rfl
  have hwalk := (reads_resolveInProfile h le_rfl rfl hhead "Größe").run Memory.backend_keeps rfl
  have hresolve := (answers_resolve h rfl "Größe").run Memory.backend_keeps rfl
  exact ⟨⟨_, congrArg Prod.fst hlinks⟩, ⟨_, congrArg Prod.fst hwalk⟩,
    ⟨_, congrArg Prod.fst hresolve⟩⟩

/-- The samples answer alike, although one of them holds bytes where they do not belong. -/
theorem samples_agree : Memory.backend.Offers shelfSample shelfSample.blobs.get? ∧
    Memory.backend.Offers hostileSample hostileSample.blobs.get? ∧
    Unambiguous shelfSample.blobs.get? hostileSample.blobs.get? ∧
    (∃ found, ((linksFrom 1 sampleChunk.cid).run Memory.backend shelfSample).1 = .ok found ∧
      ((linksFrom 1 sampleChunk.cid).run Memory.backend hostileSample).1 = .ok found) ∧
    (∃ found,
      ((resolveInProfile 1 sampleProfile "Docs" "Größe").run Memory.backend shelfSample).1 =
        .ok found ∧
      ((resolveInProfile 1 sampleProfile "Docs" "Größe").run Memory.backend hostileSample).1 =
        .ok found) ∧
    ∃ found,
      ((resolve sampleLink.body.signerAddress "Docs" "Größe").run Memory.backend shelfSample).1 =
        .ok found ∧
      ((resolve sampleLink.body.signerAddress "Docs" "Größe").run Memory.backend hostileSample).1 =
        .ok found := by
  have hshelf := shelfSample.backend_offers
  have hhostile := hostileSample.backend_offers
  have hblob : shelfSample.blobs.get? sampleChunk.cid = some sampleChunk.bytes := by
    simp only [shelfSample, Table.get?_set, if_true]
  have hblob' : hostileSample.blobs.get? sampleChunk.cid = some sampleChunk.bytes := by
    rw [hostileSample, Memory.putUnchecked, Table.get?_set, hblob, ite_self]
  obtain ⟨⟨_, hlinks⟩, ⟨_, hwalk⟩, ⟨_, hresolve⟩⟩ :=
    ok_of_shelved (shelved_sampleChunk hblob rfl)
  obtain ⟨⟨_, hlinks'⟩, ⟨_, hwalk'⟩, ⟨_, hresolve'⟩⟩ :=
    ok_of_shelved (shelved_sampleChunk hblob' rfl)
  have hi : Memory.backend (.loadIndex sampleLink.body.signerAddress "Docs") shelfSample =
      (.ok (some (.advance none sampleChunk.cid sampleChunk)), shelfSample) := by
    simp only [Memory.backend, Memory.index?, shelfSample, Table.get?_set, if_true]
  have hi' : Memory.backend (.loadIndex sampleLink.body.signerAddress "Docs") hostileSample =
      (.ok (some (.advance none sampleChunk.cid sampleChunk)), hostileSample) := by
    simp only [Memory.backend, Memory.index?, hostileSample, Memory.putUnchecked, shelfSample,
      Table.get?_set, if_true]
  have hagree := answers_agree_of_offers hshelf hhostile samples_unambiguous
  refine ⟨hshelf, hhostile, samples_unambiguous, ⟨_, hlinks, ?_⟩, ⟨_, hwalk, ?_⟩, ⟨_, hresolve, ?_⟩⟩
  · rw [hagree.1 _ _ _ _ _ hlinks hlinks', hlinks']
  · rw [hagree.2.1 _ _ _ _ _ _ _ hwalk hwalk', hwalk']
  · rw [hagree.2.2 _ _ _ _ _ _ hi hi' hresolve hresolve', hresolve']

end Reader
end SignedNames
