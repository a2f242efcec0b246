import Mathlib
import SignedNames.Proofs.UntrustedBytes

/-!
# How far walks may go

A chain of as many chunks as a walk may fetch is read to its end, and one chunk more is one too many.
A walk that looks for a name only needs the chunks down to the first that holds it.
-/
namespace SignedNames.Reader

variable {σ : Type} {b : Backend σ} {s : σ} {blob? : Cid → Option Bytes} {head : Cid}
  {chunks : List (Cid × Chunk)}

/-- What readers that may fetch so many chunks get to know about a chain under an identifier. -/
structure LimitsWalks (b : Backend σ) (s : σ) (head : Cid) (chunks : List (Cid × Chunk))
    (limit : Nat) : Prop where
  /-- All links of the chain, newest first. -/
  links_iff : (linksFrom limit head).run b s = (.ok (Lineage.links (chunks.map Prod.snd)), s) ↔
    chunks.length ≤ limit
  /-- A walk that is given up has fetched as many chunks as it may. -/
  tooLong : ¬ chunks.length ≤ limit →
    (linksFrom limit head).run b s = (.error (.corruptChain (.tooLong limit)), s) ∧
      ∃ newer older, chunks = newer ++ older ∧ newer.length = limit ∧
        (linksFrom limit head).program.asked b s = newer.map fun e => .get e.1
  /-- The link that is found is the newest of all with the name. -/
  found_iff : ∀ (profile : Profile) (namespaceName name : String),
    profile.head? namespaceName = some head → ∀ l : Link,
      (resolveInProfile limit profile namespaceName name).run b s = (.ok (some l), s) ↔
        (Lineage.links (chunks.map Prod.snd)).find? (fun l => decide (l.HasName name)) = some l ∧
          ∃ i < limit, chunks.findIdx? (fun e => decide (e.2.Holds (Text.lower name))) = some i
  absent_iff : ∀ (profile : Profile) (namespaceName name : String),
    profile.head? namespaceName = some head →
      ((resolveInProfile limit profile namespaceName name).run b s = (.ok none, s) ↔
        (∀ e ∈ chunks, ¬ e.2.Holds (Text.lower name)) ∧ chunks.length ≤ limit)
  otherwise : ∀ (profile : Profile) (namespaceName name : String),
    profile.head? namespaceName = some head →
      (∀ found, (resolveInProfile limit profile namespaceName name).run b s ≠ (.ok found, s)) →
        (resolveInProfile limit profile namespaceName name).run b s =
          (.error (.corruptChain (.tooLong limit)), s)

lemma reach_seek (name : String) (cs : List Chunk) :
    reach (seek name) () cs =
      ((cs.findIdx? fun c => decide (c.Holds (Text.lower name))).map (· + 1)).getD cs.length := by
  induction cs with
  | nil => rfl
  | cons c older ih =>
    have hsome := Lineage.latest?_isSome_iff c name
    rw [reach, seek, List.findIdx?_cons]
    cases hlatest : c.latest? name with
    | some l =>
      have hholds : c.Holds (Text.lower name) := hsome.1 (by rw [hlatest, Option.isSome_some])
      rw [decide_eq_true hholds, if_pos rfl]
      rfl
    | none =>
      have hnot : ¬ c.Holds (Text.lower name) := by
        rw [← hsome, hlatest]
        exact Bool.false_ne_true
      rw [decide_eq_false hnot, if_neg Bool.false_ne_true]
      refine (congrArg (· + 1) ih).trans ?_
      cases older.findIdx? fun c => decide (c.Holds (Text.lower name)) <;> rfl

lemma run_linksFrom (offers : b.Offers s blob?) (h : Complete blob? (some head) chunks)
    (limit : Nat) :
    (linksFrom limit head).run b s =
        (if chunks.length ≤ limit then .ok (Lineage.links (chunks.map Prod.snd))
          else .error (.corruptChain (.tooLong limit)), s) ∧
      (linksFrom limit head).program.asked b s =
        (chunks.take (min limit chunks.length)).map fun e => .get e.1 := by
  have hwalk := (fetches_walk limit (fun links (c : Chunk) => .inl (links ++ c.links.reverse)) id h
    limit (fun _ _ => List.not_mem_nil) []).run offers
  rw [outcome, reach_step, taken_links, List.nil_append, List.length_map, List.map_map] at hwalk
  exact hwalk

lemma run_resolveInProfile (offers : b.Offers s blob?) (h : Complete blob? (some head) chunks)
    (limit : Nat) {profile : Profile} {namespaceName : String}
    (hhead : profile.head? namespaceName = some head) (name : String) :
    (resolveInProfile limit profile namespaceName name).run b s =
      (if ((chunks.findIdx? fun e => decide (e.2.Holds (Text.lower name))).map (· + 1)).getD
            chunks.length ≤ limit
        then .ok ((Lineage.links (chunks.map Prod.snd)).find? fun l => decide (l.HasName name))
        else .error (.corruptChain (.tooLong limit)), s) := by
  rw [resolveInProfile_of_head hhead]
  have hwalk := (fetches_walk limit (seek name) (fun () => none) h limit
    (fun _ _ => List.not_mem_nil) ()).run offers
  rw [outcome, reach_seek, taken_seek, List.findIdx?_map, List.length_map] at hwalk
  exact hwalk.1

lemma findIdx?_holds_eq_none_iff (key : String) :
    chunks.findIdx? (fun e => decide (e.2.Holds key)) = none ↔ ∀ e ∈ chunks, ¬ e.2.Holds key := by
  simp only [List.findIdx?_eq_none_iff, decide_eq_false_iff_not]

lemma find?_links_eq_none_iff (name : String) :
    (Lineage.links (chunks.map Prod.snd)).find? (fun l => decide (l.HasName name)) = none ↔
      ∀ e ∈ chunks, ¬ e.2.Holds (Text.lower name) := by
  simp only [List.find?_eq_none, Lineage.links, List.mem_flatMap, List.mem_map, List.mem_reverse,
    decide_eq_true_eq, Chunk.Holds]
  constructor
  · rintro h e he ⟨l, hl, hname⟩
    exact h l ⟨e.2, ⟨e, he, rfl⟩, hl⟩ hname
  · rintro h l ⟨_, ⟨e, he, rfl⟩, hl⟩ hname
    exact h e he ⟨l, hl, hname⟩

lemma ite_eq_ok_iff {α : Type} {needed : Nat} {limit : Nat} {e : OperationError} {a a' : α} :
    ((if needed ≤ limit then Except.ok a else .error e, s) : Except OperationError α × σ) =
      (.ok a', s) ↔ needed ≤ limit ∧ a = a' := by
  by_cases h : needed ≤ limit <;> simp [h]

/-- Whatever a store holds besides: of a complete chain, all links are found if and only if the walk
may fetch all of its chunks, and a name is found if and only if the walk may fetch the first chunk
that holds it. -/
theorem limitsWalks_of_complete (offers : b.Offers s blob?)
    (h : Complete blob? (some head) chunks) (limit : Nat) : LimitsWalks b s head chunks limit where
  links_iff := by
    rw [(run_linksFrom offers h limit).1, ite_eq_ok_iff]
    exact and_iff_left rfl
  tooLong hlimit := by
    obtain ⟨hrun, hasked⟩ := run_linksFrom offers h limit
    rw [if_neg hlimit] at hrun
    rw [Nat.min_eq_left (Nat.le_of_not_le hlimit)] at hasked
    exact ⟨hrun, _, _, (List.take_append_drop limit chunks).symm,
      List.length_take_of_le (Nat.le_of_not_le hlimit), hasked⟩
  found_iff profile namespaceName name hhead l := by
    rw [run_resolveInProfile offers h limit hhead, ite_eq_ok_iff, and_comm]
    refine and_congr_right fun hl => ?_
    cases hfind : chunks.findIdx? fun e => decide (e.2.Holds (Text.lower name)) with
    | none =>
      rw [(find?_links_eq_none_iff name).2 ((findIdx?_holds_eq_none_iff _).1 hfind)] at hl
      cases hl
    | some i =>
      rw [Option.map_some, Option.getD_some, Nat.add_one_le_iff]
      exact ⟨fun hi => ⟨i, hi, rfl⟩, fun ⟨_, hi, heq⟩ => Option.some.inj heq ▸ hi⟩
  absent_iff profile namespaceName name hhead := by
    rw [run_resolveInProfile offers h limit hhead, ite_eq_ok_iff, find?_links_eq_none_iff, and_comm]
    refine and_congr_right fun hnone => ?_
    rw [(findIdx?_holds_eq_none_iff _).2 hnone]
    rfl
  otherwise profile namespaceName name hhead hnot := by
    rw [run_resolveInProfile offers h limit hhead] at hnot ⊢
    exact congrArg (·, s) (if_neg fun hneeded => hnot _ (congrArg (·, s) (if_pos hneeded)))

def newerChunk : Chunk := ⟨some sampleChunk.cid, [laterLink]⟩

lemma newerChunk_eq : newerChunk = ⟨some sampleCid, [laterLink]⟩ := by
  rw [newerChunk, sampleChunk, cid_sampleLink]

lemma cid_newerChunk_ne : newerChunk.cid ≠ sampleChunk.cid := by
  rw [newerChunk_eq, cid_laterLink_after, sampleChunk, cid_sampleLink]
  decide +kernel

def towerSample : Memory :=
  { Memory.empty with
    blobs := (Table.empty.set newerChunk.cid newerChunk.bytes).set sampleChunk.cid sampleChunk.bytes }

lemma towerSample_complete : Complete towerSample.blobs.get? (some newerChunk.cid)
    [(newerChunk.cid, newerChunk), (sampleChunk.cid, sampleChunk)] := by
  have hfits : newerChunk.Fits := ⟨by decide, List.forall_mem_singleton.2 laterLink_fits⟩
  refine .chunk (genuine_of_fits hfits ?_) (.chunk (genuine_of_fits sampleChunk_fits ?_) .nothing)
  · simp only [towerSample, Table.get?_set, cid_newerChunk_ne.symm, if_false, if_true]
  · simp only [towerSample, Table.get?_set, if_true]

/-- One chunk is enough to find the later version in the sample, and for all links it takes both. -/
theorem towerSample_limits : Memory.backend.Offers towerSample towerSample.blobs.get? ∧
    Complete towerSample.blobs.get? (some newerChunk.cid)
      [(newerChunk.cid, newerChunk), (sampleChunk.cid, sampleChunk)] ∧
    (linksFrom 2 newerChunk.cid).run Memory.backend towerSample =
      (.ok [laterLink, sampleLink], towerSample) ∧
    (linksFrom 1 newerChunk.cid).run Memory.backend towerSample =
      (.error (.corruptChain (.tooLong 1)), towerSample) ∧
    (resolveInProfile 1 (Profile.empty.setHead "Docs" newerChunk.cid) "Docs" "größe").run
      Memory.backend towerSample = (.ok (some laterLink), towerSample) := by
  have hoffers := towerSample.backend_offers
  have hcomplete := towerSample_complete
  have hhead : (Profile.empty.setHead "Docs" newerChunk.cid).head? "Docs" = some newerChunk.cid := by
    rw [Profile.head?, Profile.setHead, NameMap.get?_insert, if_pos rfl]
  refine ⟨hoffers, hcomplete, ?_, ?_, ?_⟩
  · exact (limitsWalks_of_complete hoffers hcomplete 2).links_iff.2 le_rfl
  · exact ((limitsWalks_of_complete hoffers hcomplete 1).tooLong (by decide)).1
  · exact ((limitsWalks_of_complete hoffers hcomplete 1).found_iff _ _ _ hhead _).2
      ⟨by decide +kernel, 0, by decide, by decide +kernel⟩

end SignedNames.Reader
