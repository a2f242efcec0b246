import Mathlib
import SignedNames.Proofs.RivalRaces
import SignedNames.Proofs.WalkLimits

/-!
# Appending links at once and one by one

Links that are appended in one chunk and links that are appended in a chunk each leave chains with
the same links in the same order. What readers answer depends on nothing else, so they cannot tell
which of the two was done.
-/
namespace SignedNames

lemma Cid.tellsApart_pair {a b : Bytes} (h : Cid.ofBytes a ≠ Cid.ofBytes b) :
    Cid.TellsApart [a, b] := by
  intro c hc d hd hcid
  simp only [List.mem_cons, List.not_mem_nil, or_false] at hc hd
  rcases hc with rfl | rfl <;> rcases hd with rfl | rfl
  · rfl
  · exact absurd hcid h
  · exact absurd hcid.symm h
  · rfl

namespace Program

variable {α β σ : Type}

def stores (b : Backend σ) (p : Program α) (s : σ) : List Bytes :=
  (p.asked b s).filterMap fun
    | .put bs => some bs
    | _ => none

theorem stores_bind (b : Backend σ) (p : Program α) (f : α → Program β) (s : σ) :
    (p.bind f).stores b s = p.stores b s ++ (f (p.run b s).1).stores b (p.run b s).2 := by
  rw [stores, asked_bind, List.filterMap_append, stores, stores]

theorem stores_ask_put (b : Backend σ) (bs : Bytes) (next : Except StoreError Cid → Program α)
    (s : σ) : (Program.ask (.put bs) next).stores b s =
      bs :: (next (b (.put bs) s).1).stores b (b (.put bs) s).2 := rfl

theorem stores_ask_loadIndex (b : Backend σ) (owner : Address) (namespaceName : String)
    (next : Except StoreError (Option NameIndex) → Program α) (s : σ) :
    (Program.ask (.loadIndex owner namespaceName) next).stores b s =
      (next (b (.loadIndex owner namespaceName) s).1).stores b
        (b (.loadIndex owner namespaceName) s).2 := rfl

end Program

namespace Lineage

lemma mem_names_iff {cs : List Chunk} {i : NameIndex} (hi : index? cs = some i) (key : String) :
    key ∈ i.names ↔ ∃ l ∈ links cs, l.body.key = key := by
  rw [NameIndex.names, NameMap.mem_keys_iff, get?_of_index? hi, Option.isSome_map,
    List.find?_isSome]
  simp only [decide_eq_true_eq, links, List.mem_flatMap, List.mem_reverse]
  constructor
  · rintro ⟨c, hc, l, hl, hkey⟩
    exact ⟨l, ⟨c, hc, hl⟩, hkey⟩
  · rintro ⟨l, ⟨c, hc, hl⟩, hkey⟩
    exact ⟨c, hc, l, hl, hkey⟩

theorem names_eq_of_links_eq {cs ds : List Chunk} {i j : NameIndex} (hi : index? cs = some i)
    (hj : index? ds = some j) (h : links cs = links ds) : i.names = j.names := by
  refine NameMap.keys_congr fun key => ?_
  change key ∈ i.names ↔ key ∈ j.names
  rw [mem_names_iff hi, mem_names_iff hj, h]

end Lineage

/-- Readers of a namespace who may fetch so many chunks cannot tell two stores apart. -/
structure ReadsAlike {σ : Type} (b : Backend σ) (s t : σ) (owner : Address)
    (namespaceName : String) (limit : Nat) : Prop where
  resolve : ∀ name, ((Reader.resolve owner namespaceName name).run b s).1 =
    ((Reader.resolve owner namespaceName name).run b t).1
  links : ((Reader.links limit owner namespaceName).run b s).1 =
    ((Reader.links limit owner namespaceName).run b t).1
  history : ∀ name, ((Reader.history limit owner namespaceName name).run b s).1 =
    ((Reader.history limit owner namespaceName name).run b t).1
  /-- The names of the index, in order. -/
  names : ∃ i? j?, b (.loadIndex owner namespaceName) s = (.ok i?, s) ∧
    b (.loadIndex owner namespaceName) t = (.ok j?, t) ∧
    i?.map NameIndex.names = j?.map NameIndex.names

section

variable {σ : Type} {b : Backend σ} {rep : σ → Contents → Prop} {k k' : Contents} {s t : σ}
  {owner : Address} {namespaceName : String}

lemma ReadsAlike.refl (keeps : b.Keeps rep) (hrep : rep s k) (owner : Address)
    (namespaceName : String) (limit : Nat) : ReadsAlike b s s owner namespaceName limit where
  resolve _ := rfl
  links := rfl
  history _ := rfl
  names := ⟨_, _, keeps.loadIndex hrep owner namespaceName,
    keeps.loadIndex hrep owner namespaceName, rfl⟩

/-- Two chains with the same links are read alike. -/
theorem Shelved.readsAlike (keeps : b.Keeps rep) (hrep : rep s k) (hrep' : rep t k')
    {cs ds : List Chunk} {i j : NameIndex} (h : Shelved k (owner, Text.lower namespaceName) cs)
    (h' : Shelved k' (owner, Text.lower namespaceName) ds) (hi : Lineage.index? cs = some i)
    (hj : Lineage.index? ds = some j) (hlinks : Lineage.links cs = Lineage.links ds) {limit : Nat}
    (hlimit : cs.length ≤ limit) (hlimit' : ds.length ≤ limit) :
    ReadsAlike b s t owner namespaceName limit := by
  have hfrom := Reader.answers_links h hi hlimit
  have hto := Reader.answers_links h' hj hlimit'
  rw [← hlinks] at hto
  refine ⟨fun name => ?_, ?_, fun name => ?_, ?_⟩
  · have hfound := (Reader.answers_resolve h hi name).run keeps hrep
    have hfound' := (Reader.answers_resolve h' hj name).run keeps hrep'
    rw [← hlinks] at hfound'
    exact (congrArg Prod.fst hfound).trans (congrArg Prod.fst hfound').symm
  · exact (congrArg Prod.fst (hfrom.run keeps hrep)).trans
      (congrArg Prod.fst (hto.run keeps hrep')).symm
  · have hhistory := (Reader.answers_history hfrom name).run keeps hrep
    have hhistory' := (Reader.answers_history hto name).run keeps hrep'
    exact (congrArg Prod.fst hhistory).trans (congrArg Prod.fst hhistory').symm
  · refine ⟨_, _, keeps.loadIndex hrep owner namespaceName,
      keeps.loadIndex hrep' owner namespaceName, ?_⟩
    rw [h.index, h'.index, hi, hj, Option.map_some, Option.map_some,
      Lineage.names_eq_of_links_eq hi hj hlinks]

end

namespace Publisher

/-- Appends links one after the other, each in a chunk of its own. -/
def appendEach (p : Publisher) (namespaceName : String) : List Link → Operation (List Receipt)
  | [] => return []
  | l :: links => do
    let receipt ← p.append namespaceName [l]
    let receipts ← p.appendEach namespaceName links
    return receipt :: receipts

end Publisher

namespace Batch

def single (w : Batch) (l : Link) : Batch := { w with links := [l] }

/-- The chunks after links were put on top of some, each in a chunk of its own. -/
def stacked (w : Batch) : List Chunk → List Link → List Chunk
  | cs, [] => cs
  | cs, l :: links => w.stacked ((w.single l).chunk cs :: cs) links

lemma links_stacked (w : Batch) (cs : List Chunk) (links : List Link) :
    Lineage.links (w.stacked cs links) = links.reverse ++ Lineage.links cs := by
  induction links generalizing cs with
  | nil => rfl
  | cons l links ih =>
    rw [stacked, ih, List.reverse_cons, List.append_assoc]
    rfl

lemma length_stacked (w : Batch) (cs : List Chunk) (links : List Link) :
    (w.stacked cs links).length = cs.length + links.length := by
  induction links generalizing cs with
  | nil => rfl
  | cons l links ih =>
    rw [stacked, ih, List.length_cons, List.length_cons]
    omega

end Batch

section

variable {σ : Type} {b : Backend σ} {rep : σ → Contents → Prop} {pool : List Bytes} {k : Contents}
  {s : σ} {w : Batch} {cs : List Chunk}

lemma Backend.Keeps.run_quiet {α : Type} (keeps : b.Keeps rep) {p : Program α}
    (h : p.Asks Request.Quiet) (hrep : rep s k) : rep (p.run b s).2 k := by
  induction p generalizing s with
  | done a => exact hrep
  | ask r next ih => exact ih _ (h.2 _) (keeps.quiet hrep r h.1)

lemma Tries.lands (keeps : b.Keeps rep) (apart : Cid.TellsApart pool) (fits : w.Fits) {limit : Nat}
    (hlimit : limit ≠ 0) {rest : Program (Except OperationError Receipt)}
    (h : Tries w limit (.seen 0 cs) rest) (hrep : rep s k) (hcarries : Carries pool w.key k cs)
    (hpool : rest.stores b s ⊆ pool) :
    ∃ receipt s' k', rest.run b s = (.ok receipt, s') ∧ rep s' k' ∧
      Carries pool w.key k' (w.chunk cs :: cs) := by
  cases h with
  | exhausted => exact absurd rfl hlimit
  | @put _ _ next tries stored refused =>
    rw [Program.stores_ask_put] at hpool
    obtain ⟨hown, -⟩ := List.cons_subset.1 hpool
    obtain ⟨hput, hstore⟩ := keeps.put hrep (w.chunk cs).bytes
    obtain ⟨hcarries', hblob⟩ := hcarries.put apart hown
    rw [Program.run_ask, hput]
    change ∃ receipt s' k', (next (.ok (w.chunk cs).cid)).run b _ = _ ∧ _
    generalize next (.ok (w.chunk cs).cid) = rest at stored
    cases stored with
    | swap tries swapped conflict refused =>
      obtain ⟨hreply, hstore'⟩ := swapIndex_of_index? keeps hstore hcarries'.shelved.index
      rw [Program.run_ask, hreply]
      cases swapped with
      | landed quiet ends =>
        obtain ⟨receipt, hok, -⟩ := ends.run b _
        exact ⟨receipt, _, _, Prod.ext hok rfl, keeps.run_quiet quiet hstore',
          hcarries'.setIndex fits hblob⟩

namespace Publisher

variable (p : Publisher)

/-- Where nobody else writes, an append of valid links lands on top of the newest chunks. -/
theorem append_lands (keeps : b.Keeps rep) (apart : Cid.TellsApart pool) (fits : w.Fits)
    (howner : w.owner = p.owner) (hsome : w.links ≠ [])
    (hvalid : ∀ l ∈ w.links, l.body.validate = .ok ()) (hattempts : p.settings.maxAttempts ≠ 0)
    (hrep : rep s k) (hcarries : Carries pool w.key k cs)
    (hpool : (p.append w.namespaceName w.links).program.stores b s ⊆ pool) :
    ∃ receipt s' k', (p.append w.namespaceName w.links).program.run b s = (.ok receipt, s') ∧
      rep s' k' ∧ Carries pool w.key k' (w.chunk cs :: cs) := by
  have htries := p.append_tries_of_valid w howner hsome (forM_validate hvalid)
  generalize (p.append w.namespaceName w.links).program = program at htries hpool
  cases htries with
  | load seen refused =>
    have hload := loadIndex_of_index? keeps hrep hcarries.shelved.index
    rw [Program.stores_ask_loadIndex, hload] at hpool
    rw [Program.run_ask, hload]
    exact (seen cs).lands keeps apart fits hattempts hrep hcarries hpool

theorem append_idle (keeps : b.Keeps rep) (howner : w.owner = p.owner) (hsome : w.links ≠ [])
    (hvalid : ∀ l ∈ w.links, l.body.validate = .ok ()) (hattempts : p.settings.maxAttempts = 0)
    (hrep : rep s k) (hindex : k.index? w.key = Lineage.index? cs) :
    (p.append w.namespaceName w.links).program.run b s =
      (.error (.appendConflicts w.namespaceName 0), s) := by
  have htries := p.append_tries_of_valid w howner hsome (forM_validate hvalid)
  rw [hattempts] at htries
  generalize (p.append w.namespaceName w.links).program = program at htries
  cases htries with
  | @load next seen refused =>
    rw [Program.run_ask, loadIndex_of_index? keeps hrep hindex]
    have hseen := seen cs
    generalize next (.ok (Lineage.index? cs)) = rest at hseen
    cases hseen with
    | put tries => exact absurd tries (Nat.not_lt_zero _)
    | exhausted => rfl

/-- Where nobody else writes, links that are appended one by one end up on top of each other. -/
theorem appendEach_lands (keeps : b.Keeps rep) (apart : Cid.TellsApart pool)
    (howner : w.owner = p.owner) (hattempts : p.settings.maxAttempts ≠ 0) {links : List Link}
    (hfits : ∀ l ∈ links, l.body.Fits) (hvalid : ∀ l ∈ links, l.body.validate = .ok ())
    (hrep : rep s k) (hcarries : Carries pool w.key k cs)
    (hpool : (p.appendEach w.namespaceName links).program.stores b s ⊆ pool) :
    ∃ receipts s' k', (p.appendEach w.namespaceName links).program.run b s = (.ok receipts, s') ∧
      rep s' k' ∧ Carries pool w.key k' (w.stacked cs links) := by
  induction links generalizing s k cs with
  | nil => exact ⟨[], s, k, rfl, hrep, hcarries⟩
  | cons l links ih =>
    obtain ⟨hl, hlinks⟩ := List.forall_mem_cons.1 hfits
    obtain ⟨hlvalid, hvalid⟩ := List.forall_mem_cons.1 hvalid
    have fits : (w.single l).Fits :=
      ⟨(by decide : 1 < UInt64.size), List.forall_mem_singleton.2 hl⟩
    rw [appendEach, Operation.program_bind, Program.stores_bind, List.append_subset] at hpool
    obtain ⟨receipt, s₁, k₁, hrun₁, hrep₁, hcarries₁⟩ := p.append_lands (w := w.single l) keeps
      apart fits howner (List.cons_ne_nil l []) (List.forall_mem_singleton.2 hlvalid) hattempts hrep
      hcarries hpool.1
    have hrun₁' : (p.append w.namespaceName [l]).program.run b s = (.ok receipt, s₁) := hrun₁
    rw [hrun₁', Operation.after_ok, Operation.program_bind, Program.stores_bind,
      List.append_subset] at hpool
    obtain ⟨receipts, s₂, k₂, hrun₂, hrep₂, hcarries₂⟩ :=
      ih hlinks hvalid hrep₁ hcarries₁ hpool.2.1
    refine ⟨receipt :: receipts, s₂, k₂, ?_, hrep₂, hcarries₂⟩
    rw [appendEach, Operation.program_bind, Program.run_bind, hrun₁', Operation.after_ok,
      Operation.program_bind, Program.run_bind, hrun₂]
    rfl

theorem appendEach_idle (keeps : b.Keeps rep) (howner : w.owner = p.owner) {links : List Link}
    (hsome : links ≠ []) (hvalid : ∀ l ∈ links, l.body.validate = .ok ())
    (hattempts : p.settings.maxAttempts = 0) (hrep : rep s k)
    (hindex : k.index? w.key = Lineage.index? cs) :
    (p.appendEach w.namespaceName links).program.run b s =
      (.error (.appendConflicts w.namespaceName 0), s) := by
  obtain ⟨l, links, rfl⟩ := List.exists_cons_of_ne_nil hsome
  have hidle : (p.append w.namespaceName [l]).program.run b s = _ :=
    p.append_idle (w := w.single l) keeps howner (List.cons_ne_nil l [])
      (List.forall_mem_singleton.2 (List.forall_mem_cons.1 hvalid).1) hattempts hrep hindex
  rw [appendEach, Operation.program_bind, Program.run_bind, hidle]
  rfl

end Publisher

/-- What becomes of links in a system, appended at once and one by one by the same publisher. -/
structure AppendsAlike (b : Backend σ) (s : System σ) (p : Publisher) (namespaceName : String)
    (links : List Link) : Prop where
  lands : p.settings.maxAttempts ≠ 0 →
    (∃ receipt, ((p.append namespaceName links).run b s.store).1 = .ok receipt) ∧
      ∃ receipts, ((p.appendEach namespaceName links).run b s.store).1 = .ok receipts
  /-- A publisher that may not try at all changes nothing. -/
  idle : p.settings.maxAttempts = 0 →
    ((p.append namespaceName links).run b s.store).2 = s.store ∧
      ((p.appendEach namespaceName links).run b s.store).2 = s.store
  listed : p.settings.maxAttempts ≠ 0 →
    ∀ limit, (s.landingsAt (p.owner, Text.lower namespaceName)).length + links.length ≤ limit →
      ((Reader.links limit p.owner namespaceName).run b
          ((p.append namespaceName links).run b s.store).2).1 =
        .ok (links.reverse ++ (s.committed (p.owner, Text.lower namespaceName)).flatten.reverse)
  reads : ∀ limit,
    (s.landingsAt (p.owner, Text.lower namespaceName)).length + links.length ≤ limit →
      ReadsAlike b ((p.append namespaceName links).run b s.store).2
        ((p.appendEach namespaceName links).run b s.store).2 p.owner namespaceName limit

/-- Readers cannot tell how links that are all valid were appended. Of the byte strings that are
stored, before and by each way of appending, no two have the same identifier. -/
def BatchingUnnoticed (b : Backend σ) (s : System σ) : Prop :=
  ∀ (p : Publisher) (namespaceName : String) (links : List Link),
    Batch.Fits ⟨p.owner, namespaceName, links⟩ → links ≠ [] →
    (∀ l ∈ links, l.body.validate = .ok ()) →
    Cid.TellsApart (s.storedBytes ++ (p.append namespaceName links).program.stores b s.store) →
    Cid.TellsApart (s.storedBytes ++
      (p.appendEach namespaceName links).program.stores b s.store) →
      AppendsAlike b s p namespaceName links

theorem Carries.readsAlike_stacked (keeps : b.Keeps rep) {pool' : List Bytes} {k' : Contents}
    {t : σ} (hrep : rep s k) (hrep' : rep t k') (h : Carries pool w.key k (w.chunk cs :: cs))
    (h' : Carries pool' w.key k' (w.stacked cs w.links)) (hsome : w.links ≠ []) {limit : Nat}
    (hlimit : cs.length + w.links.length ≤ limit) :
    ReadsAlike b s t w.owner w.namespaceName limit := by
  have hpos : 0 < w.links.length := List.length_pos_iff.2 hsome
  have hlength := w.length_stacked cs w.links
  obtain ⟨j, hj⟩ := Option.isSome_iff_exists.1
    ((Lineage.isSome_index?_iff (w.stacked cs w.links)).2 (List.length_pos_iff.1 (by omega)))
  refine h.shelved.readsAlike keeps hrep hrep' h'.shelved (w.index?_chunk cs) hj ?_ ?_ ?_
  · rw [w.links_stacked]
    rfl
  · rw [List.length_cons]
    omega
  · omega

theorem Sound.batchingUnnoticed {chains : Address × String → List Chunk} {s : System σ}
    (keeps : b.Keeps rep) (hrep : rep s.store k) (h : Sound k chains s) :
    BatchingUnnoticed b s := by
  intro p namespaceName links fits hsome hvalid apart apart'
  let w : Batch := ⟨p.owner, namespaceName, links⟩
  have hlength : (s.landingsAt w.key).length = (chains w.key).length := h.length_landingsAt w.key
  by_cases hattempts : p.settings.maxAttempts = 0
  · have hrun : (p.append namespaceName links).run b s.store = (_, s.store) :=
      p.append_idle (w := w) keeps rfl hsome hvalid hattempts hrep (h.index w.key)
    have hrun' : (p.appendEach namespaceName links).run b s.store = (_, s.store) :=
      p.appendEach_idle (w := w) keeps rfl hsome hvalid hattempts hrep (h.index w.key)
    refine ⟨fun hmore => absurd hattempts hmore, fun _ => ?_, fun hmore => absurd hattempts hmore,
      fun limit _ => ?_⟩
    · rw [hrun, hrun']
      exact ⟨rfl, rfl⟩
    · rw [hrun, hrun']
      exact .refl keeps hrep p.owner namespaceName limit
  · obtain ⟨receipt, s₁, k₁, hrun₁, hrep₁, hcarries₁⟩ := p.append_lands (w := w) keeps apart fits
      rfl hsome hvalid hattempts hrep (h.carries _ _) (List.subset_append_right ..)
    obtain ⟨receipts, s₂, k₂, hrun₂, hrep₂, hcarries₂⟩ := p.appendEach_lands (w := w) keeps apart'
      rfl hattempts fits.links hvalid hrep (h.carries _ _) (List.subset_append_right ..)
    change (p.append namespaceName links).run b s.store = (.ok receipt, s₁) at hrun₁
    change (p.appendEach namespaceName links).run b s.store = (.ok receipts, s₂) at hrun₂
    refine ⟨fun _ => ?_, fun hzero => absurd hzero hattempts, fun _ limit hlimit => ?_,
      fun limit hlimit => ?_⟩
    · rw [hrun₁, hrun₂]
      exact ⟨⟨_, rfl⟩, ⟨_, rfl⟩⟩
    · have hpermits : (w.chunk (chains w.key) :: chains w.key).length ≤ limit := by
        have hpos : 0 < links.length := List.length_pos_iff.2 hsome
        rw [List.length_cons, ← hlength]
        exact (Nat.add_le_add_left hpos _).trans hlimit
      have hlisted := (Reader.answers_links hcarries₁.shelved (w.index?_chunk _) hpermits).run keeps
        hrep₁
      rw [hrun₁, ← show w.key = (p.owner, Text.lower namespaceName) from rfl, ← h.links_eq]
      exact congrArg Prod.fst hlisted
    · rw [hrun₁, hrun₂]
      exact hcarries₁.readsAlike_stacked keeps hrep₁ hrep₂ hcarries₂ hsome (hlength ▸ hlimit)

/-- Whatever calls were made side by side, and in whatever order their requests were served or
refused: from then on readers cannot tell links that were appended in one chunk from links that were
appended one by one, in a store in memory and in one of rows. -/
theorem batching_unnoticed_of_reachable :
    (∀ s : System Memory, System.Run Memory.backend (.start .empty) s → s.CollisionFree →
      BatchingUnnoticed Memory.backend s) ∧
    ∀ s : System Rows, System.Run Rows.backend (.start .fresh) s → s.CollisionFree →
      BatchingUnnoticed Rows.backend s := by
  constructor
  · intro s hrun hfree
    obtain ⟨k, chains, hrep, -, hsound⟩ :=
      (Sound.start Memory.empty).run Memory.backend_keeps Memory.contents_empty hrun hfree
    exact hsound.batchingUnnoticed Memory.backend_keeps hrep
  · intro s hrun hfree
    obtain ⟨k, chains, hrep, -, hsound⟩ :=
      (Sound.start Rows.fresh).run Rows.backend_keeps Rows.represents_fresh hrun hfree
    exact hsound.batchingUnnoticed Rows.backend_keeps hrep

end

def versions : List Link := [sampleLink, laterLink]

lemma versions_fit : Batch.Fits ⟨samplePublisher.owner, "Docs", versions⟩ := by
  refine ⟨(by decide : 2 < UInt64.size), List.forall_mem_cons.2 ⟨?_, List.forall_mem_singleton.2 ?_⟩⟩
  · exact ⟨by decide, by decide, nofun, nofun⟩
  · exact laterLink_fits

lemma stores_append_versions :
    (samplePublisher.append "Docs" versions).program.stores Memory.backend .empty =
      [Chunk.bytes ⟨none, versions⟩] := by
  decide +kernel

lemma stores_appendEach_versions :
    (samplePublisher.appendEach "Docs" versions).program.stores Memory.backend .empty =
      [Reader.sampleChunk.bytes, Reader.newerChunk.bytes] := by
  rw [Reader.newerChunk_eq]
  decide +kernel

/-- Two versions of a link, appended to an empty store at once and one by one. -/
theorem versions_appended_alike :
    System.Run Memory.backend (.start .empty) (.start .empty) ∧
      (System.start Memory.empty).CollisionFree ∧
      AppendsAlike Memory.backend (.start .empty) samplePublisher "Docs" versions := by
  have hfree : (System.start Memory.empty).CollisionFree := nofun
  have hbatch : Cid.TellsApart ((System.start Memory.empty).storedBytes ++
      (samplePublisher.append "Docs" versions).program.stores Memory.backend .empty) := by
    rw [stores_append_versions]
    exact Cid.tellsApart_of_forall_eq _ (List.forall_mem_singleton.2 rfl)
  have heach : Cid.TellsApart ((System.start Memory.empty).storedBytes ++
      (samplePublisher.appendEach "Docs" versions).program.stores Memory.backend .empty) := by
    rw [stores_appendEach_versions]
    exact Cid.tellsApart_pair Reader.cid_newerChunk_ne.symm
  exact ⟨.refl, hfree, batching_unnoticed_of_reachable.1 _ .refl hfree samplePublisher "Docs"
    versions versions_fit (List.cons_ne_nil _ _) (by decide) hbatch heach⟩

end SignedNames
