import Mathlib
import SignedNames.Proofs.PublishedLinks
import SignedNames.Proofs.Racing
import SignedNames.Proofs.Reading

/-!
# Appends against rivals

A layer of faults lets a rival append just before each of the next index swaps. An append that has
more attempts than there are rivals ends up on top of all of them; any other loses all its swaps.
-/
namespace SignedNames

/-- No two of these byte strings have the same identifier. -/
def Cid.TellsApart (pool : List Bytes) : Prop :=
  ∀ a ∈ pool, ∀ b ∈ pool, Cid.ofBytes a = Cid.ofBytes b → a = b

lemma Cid.tellsApart_of_forall_eq {pool : List Bytes} (bs : Bytes) (h : ∀ a ∈ pool, a = bs) :
    Cid.TellsApart pool :=
  fun a ha b hb _ => (h a ha).trans (h b hb).symm

/-- The store holds some chunks under a key, and no bytes but known ones. -/
structure Carries (pool : List Bytes) (key : Address × String) (k : Contents) (cs : List Chunk) :
    Prop where
  shelved : Shelved k key cs
  known : ∀ cid bs, k.blob? cid = some bs → Cid.ofBytes bs = cid ∧ bs ∈ pool

section

variable {pool : List Bytes} {key : Address × String} {k : Contents} {cs : List Chunk}

lemma Carries.put (h : Carries pool key k cs) (apart : Cid.TellsApart pool) {bs : Bytes}
    (hbs : bs ∈ pool) :
    Carries pool key (k.put bs) cs ∧ (k.put bs).blob? (Cid.ofBytes bs) = some bs := by
  refine ⟨⟨⟨h.shelved.linked, ?_, ?_⟩, ?_⟩, ?_⟩
  · intro c hc
    obtain ⟨fits, hblob⟩ := h.shelved.kept c hc
    exact ⟨fits, Contents.blob?_put_of_blob? hblob bs⟩
  · rw [Contents.put_index?]
    exact h.shelved.index
  · intro cid found hfound
    rcases Contents.blob?_put_eq_some hfound with hfound | ⟨hcid, rfl⟩
    · exact h.known cid found hfound
    · exact ⟨hcid, hbs⟩
  · rw [Contents.blob?_put_self]
    cases hold : k.blob? (Cid.ofBytes bs) with
    | none => rfl
    | some old =>
      obtain ⟨hcid, hmem⟩ := h.known _ _ hold
      rw [apart old hmem bs hbs hcid]
      rfl

lemma Carries.setIndex {w : Batch} (h : Carries pool w.key k cs) (fits : w.Fits)
    (hblob : k.blob? (w.chunk cs).cid = some (w.chunk cs).bytes) :
    Carries pool w.key (k.setIndex w.key (w.index cs)) (w.chunk cs :: cs) where
  shelved := ⟨⟨rfl, h.shelved.linked⟩,
    List.forall_mem_cons.2 ⟨⟨fits.chunk cs, hblob⟩, h.shelved.kept⟩, if_pos rfl⟩
  known := h.known

end

section

variable {σ : Type} {b : Backend σ} {rep : σ → Contents → Prop} {pool : List Bytes} {k : Contents}
  {s : σ} {w : Batch} {cs : List Chunk}

lemma Access.run_ask_bind {α : Type} (b : Backend σ) (r : Request) (f : r.Answer → Access α)
    (s : σ) : (ask r >>= f).run.run b s =
      match (b r s).1 with
      | .ok a => (f a).run.run b (b r s).2
      | .error e => (.error e, (b r s).2) := by
  change Program.run b (ExceptT.bindCont f (b r s).1) (b r s).2 = _
  cases (b r s).1 <;> rfl

lemma loadIndex_of_index? (keeps : b.Keeps rep) (hrep : rep s k)
    (h : k.index? w.key = Lineage.index? cs) :
    b (.loadIndex w.owner w.namespaceName) s = (.ok (Lineage.index? cs), s) := by
  rw [keeps.loadIndex hrep, ← h]
  rfl

lemma swapIndex_of_index? (keeps : b.Keeps rep) (hrep : rep s k)
    (h : k.index? w.key = Lineage.index? cs) :
    (b (.swapIndex w.owner w.namespaceName (Lineage.tip cs) (w.index cs)) s).1 = .ok .swapped ∧
      rep (b (.swapIndex w.owner w.namespaceName (Lineage.tip cs) (w.index cs)) s).2
        (k.setIndex w.key (w.index cs)) := by
  refine keeps.swapIndex hrep w.owner w.namespaceName _ (w.index_normal cs) ?_
  change k.swap w.key _ _ = _
  refine if_pos ?_
  rw [h, Lineage.map_head_index?]

lemma run_appendOnce (keeps : b.Keeps rep) (hrep : rep s k) (apart : Cid.TellsApart pool)
    (fits : w.Fits) (h : Carries pool w.key k cs) (hbs : (w.chunk cs).bytes ∈ pool) :
    ∃ s' k', (Access.appendOnce w.owner w.namespaceName w.links).run.run b s = (.ok true, s') ∧
      rep s' k' ∧ Carries pool w.key k' (w.chunk cs :: cs) := by
  obtain ⟨hput, hstore⟩ := keeps.put hrep (w.chunk cs).bytes
  obtain ⟨hcarries, hblob⟩ := h.put apart hbs
  obtain ⟨hreply, hstore'⟩ := swapIndex_of_index? keeps hstore hcarries.shelved.index
  refine ⟨_, _, ?_, hstore', hcarries.setIndex fits hblob⟩
  rw [Access.appendOnce, Access.run_ask_bind, loadIndex_of_index? keeps hrep h.shelved.index]
  dsimp only
  have hchunk : (⟨Lineage.tip cs, w.links⟩ : Chunk) = w.chunk cs := rfl
  have hnext : NameIndex.advance (Lineage.index? cs) (Cid.ofBytes (w.chunk cs).bytes)
      (w.chunk cs) = w.index cs := rfl
  rw [Lineage.map_head_index?, Access.putChunk, Access.run_ask_bind, hchunk, hput]
  dsimp only
  rw [hnext, Access.run_ask_bind, hreply]
  rfl

namespace Faults

variable {rivalLink : Nat → Link} {f : Faults} {owner : Address} {namespaceName : String}
  {expected : Option Cid} {next : NameIndex}

lemma backend_put (online : f.offline = false) (hputs : f.failingPuts = 0) (bs : Bytes) :
    backend b rivalLink (.put bs) (s, f) = ((b (.put bs) s).1, ((b (.put bs) s).2, f)) := by
  simp [backend, online, hputs, forward]

lemma backend_loadIndex (online : f.offline = false) :
    backend b rivalLink (.loadIndex owner namespaceName) (s, f) =
      ((b (.loadIndex owner namespaceName) s).1,
        ((b (.loadIndex owner namespaceName) s).2, f)) := by
  simp [backend, online, forward]

lemma backend_swapIndex_alone (online : f.offline = false) (hrivals : f.pendingRivals = 0) :
    backend b rivalLink (.swapIndex owner namespaceName expected next) (s, f) =
      ((b (.swapIndex owner namespaceName expected next) s).1,
        ((b (.swapIndex owner namespaceName expected next) s).2,
          { f with indexSwaps := f.indexSwaps + 1 })) := by
  simp [backend, online, hrivals, forward]

lemma backend_swapIndex_after {pending : Nat} {s' : σ} (online : f.offline = false)
    (hrivals : f.pendingRivals = pending + 1)
    (hland : (Access.appendOnce owner namespaceName [rivalLink f.rivalsLanded]).run.run b s =
      (.ok true, s')) :
    backend b rivalLink (.swapIndex owner namespaceName expected next) (s, f) =
      ((b (.swapIndex owner namespaceName expected next) s').1,
        ((b (.swapIndex owner namespaceName expected next) s').2,
          { f with
            pendingRivals := pending
            rivalsLanded := f.rivalsLanded + 1
            indexSwaps := f.indexSwaps + 1 })) := by
  simp [backend, online, hrivals, landRival, hland, forward]

lemma backend_quiet (keeps : b.Keeps rep) {r : Request} (h : r.Quiet) (rivalLink : Nat → Link)
    (hrep : rep s k) (f : Faults) :
    rep (backend b rivalLink r (s, f)).2.1 k ∧
      (backend b rivalLink r (s, f)).2.2.pendingRivals = f.pendingRivals ∧
      (backend b rivalLink r (s, f)).2.2.rivalsLanded = f.rivalsLanded ∧
      (backend b rivalLink r (s, f)).2.2.indexSwaps = f.indexSwaps := by
  have hquiet := keeps.quiet hrep r h
  by_cases hoffline : f.offline
  · have hreply : backend b rivalLink r (s, f) = (.error (.unavailable .offline), (s, f)) :=
      if_pos hoffline
    rw [hreply]
    exact ⟨hrep, rfl, rfl, rfl⟩
  cases r with
  | put bs => exact h.elim
  | swapIndex => exact h.elim
  | swapProfile owner expected next =>
    simp only [backend, if_neg hoffline]
    split
    · exact ⟨hrep, rfl, rfl, rfl⟩
    · exact ⟨hquiet, rfl, rfl, rfl⟩
  | _ =>
    simp only [backend, if_neg hoffline]
    exact ⟨hquiet, rfl, rfl, rfl⟩

lemma run_quiet {α : Type} (keeps : b.Keeps rep) {p : Program α} (h : p.Asks Request.Quiet)
    (rivalLink : Nat → Link) (hrep : rep s k) (f : Faults) :
    rep (p.run (backend b rivalLink) (s, f)).2.1 k ∧
      (p.run (backend b rivalLink) (s, f)).2.2.rivalsLanded = f.rivalsLanded ∧
      (p.run (backend b rivalLink) (s, f)).2.2.indexSwaps = f.indexSwaps := by
  induction p generalizing s f with
  | done a => exact ⟨hrep, rfl, rfl⟩
  | ask r next ih =>
    obtain ⟨hrep', -, hlanded, hswaps⟩ := backend_quiet keeps h.1 rivalLink hrep f
    obtain ⟨hrep'', hlanded', hswaps'⟩ := ih (backend b rivalLink r (s, f)).1 (h.2 _) hrep'
      (backend b rivalLink r (s, f)).2.2
    exact ⟨hrep'', hlanded'.trans hlanded, hswaps'.trans hswaps⟩

end Faults

def Batch.rival (w : Batch) (l : Link) : Batch := { w with links := [l] }

/-- The chunks of a namespace after some appends of the rival, who has landed `landed` before. -/
def rivalChunks (w : Batch) (rivalLink : Nat → Link) : (landed : Nat) → List Chunk →
    (rivals : Nat) → List Chunk
  | _, cs, 0 => cs
  | landed, cs, rivals + 1 =>
    rivalChunks w rivalLink (landed + 1) ((w.rival (rivalLink landed)).chunk cs :: cs) rivals

/-- The byte strings that an append and its rival store one after the other, if the append may try
for some more times. -/
def raceBytes (w : Batch) (rivalLink : Nat → Link) : (landed : Nat) → List Chunk → (rivals : Nat) →
    (attempts : Nat) → List Bytes
  | _, _, _, 0 => []
  | _, cs, 0, _ + 1 => [(w.chunk cs).bytes]
  | landed, cs, rivals + 1, attempts + 1 =>
    (w.chunk cs).bytes :: ((w.rival (rivalLink landed)).chunk cs).bytes ::
      raceBytes w rivalLink (landed + 1) ((w.rival (rivalLink landed)).chunk cs :: cs) rivals
        attempts

lemma Program.Ends.run {α : Type} {Q : α → Prop} {p : Program α} (h : p.Ends Q) (b : Backend σ)
    (s : σ) : Q (p.run b s).1 := by
  induction p generalizing s with
  | done a => exact h
  | ask r next ih => exact ih _ (h _) _

/-- How a race ends for an append that had lost some swaps and could try for some more times. -/
structure EndsRace (rep : σ → Contents → Prop) (pool : List Bytes) (w : Batch)
    (rivalLink : Nat → Link) (limit lost attempts : Nat) (cs : List Chunk) (f : Faults)
    (result : Except OperationError Receipt × σ × Faults) : Prop where
  won : f.pendingRivals < attempts →
    (∃ receipt, result.1 = .ok receipt ∧ receipt.attempts = lost + f.pendingRivals + 1 ∧
      receipt.chunk = (w.chunk (rivalChunks w rivalLink f.rivalsLanded cs f.pendingRivals)).cid) ∧
    ∃ k, rep result.2.1 k ∧ Carries pool w.key k
      (w.chunk (rivalChunks w rivalLink f.rivalsLanded cs f.pendingRivals) ::
        rivalChunks w rivalLink f.rivalsLanded cs f.pendingRivals)
  lost : attempts ≤ f.pendingRivals →
    result.1 = .error (.appendConflicts w.namespaceName limit) ∧
    ∃ k, rep result.2.1 k ∧
      Carries pool w.key k (rivalChunks w rivalLink f.rivalsLanded cs attempts)
  swaps : result.2.2.indexSwaps = f.indexSwaps + min (f.pendingRivals + 1) attempts
  rivals : result.2.2.rivalsLanded = f.rivalsLanded + min f.pendingRivals attempts

section

variable {rivalLink : Nat → Link} {limit lost attempts : Nat} {f : Faults}
  {next : Except StoreError (Swap NameIndex) → Program (Except OperationError Receipt)}

lemma Tries.endsRace_alone (keeps : b.Keeps rep) (fits : w.Fits)
    (swapped : Tries w limit (.landed lost cs) (next (.ok .swapped))) (hrep : rep s k)
    (hcarries : Carries pool w.key k cs)
    (hblob : k.blob? (w.chunk cs).cid = some (w.chunk cs).bytes) (online : f.offline = false)
    (hrivals : f.pendingRivals = 0) :
    EndsRace rep pool w rivalLink limit lost (attempts + 1) cs f
      ((Program.ask (.swapIndex w.owner w.namespaceName (Lineage.tip cs) (w.index cs)) next).run
        (Faults.backend b rivalLink) (s, f)) := by
  obtain ⟨hreply, hstore⟩ := swapIndex_of_index? keeps hrep hcarries.shelved.index
  rw [Program.run, Faults.backend_swapIndex_alone online hrivals, hreply]
  dsimp only
  cases swapped with
  | landed quiet ends =>
    obtain ⟨receipt, hok, hattempts, hchunk⟩ := ends.run (Faults.backend b rivalLink)
      (_, { f with indexSwaps := f.indexSwaps + 1 })
    obtain ⟨hrep', hlanded, hswaps⟩ := Faults.run_quiet keeps quiet rivalLink hstore
      { f with indexSwaps := f.indexSwaps + 1 }
    refine ⟨fun _ => ⟨⟨receipt, hok, ?_, ?_⟩, _, hrep', ?_⟩, fun h => ?_, ?_, ?_⟩
    · rw [hattempts, hrivals]
    · rw [hchunk, hrivals, rivalChunks]
    · rw [hrivals, rivalChunks]
      exact hcarries.setIndex fits hblob
    · omega
    · rw [hswaps, hrivals]
      simp
    · rw [hlanded, hrivals]
      simp

lemma EndsRace.after_rival {result : Except OperationError Receipt × σ × Faults} {pending : Nat}
    (hrivals : f.pendingRivals = pending + 1)
    (h : EndsRace rep pool w rivalLink limit (lost + 1) attempts
      ((w.rival (rivalLink f.rivalsLanded)).chunk cs :: cs)
      { f with
        pendingRivals := pending
        rivalsLanded := f.rivalsLanded + 1
        indexSwaps := f.indexSwaps + 1 } result) :
    EndsRace rep pool w rivalLink limit lost (attempts + 1) cs f result where
  won hmore := by
    rw [hrivals] at hmore ⊢
    obtain ⟨⟨receipt, hok, hattempts, hchunk⟩, hstore⟩ := h.won (Nat.lt_of_succ_lt_succ hmore)
    exact ⟨⟨receipt, hok, by rw [hattempts]; simp only; omega, hchunk⟩, hstore⟩
  lost hfew := h.lost (by simp only; omega)
  swaps := by
    rw [h.swaps, hrivals]
    simp only
    omega
  rivals := by
    rw [h.rivals, hrivals]
    simp only
    omega

lemma run_swap_after_rival (keeps : b.Keeps rep) (apart : Cid.TellsApart pool)
    (hrival : ∀ n, (rivalLink n).body.Fits) (hrep : rep s k) (hcarries : Carries pool w.key k cs)
    (hbs : ((w.rival (rivalLink f.rivalsLanded)).chunk cs).bytes ∈ pool)
    (online : f.offline = false) {pending : Nat} (hrivals : f.pendingRivals = pending + 1) :
    ∃ s' k', rep s' k' ∧
      Carries pool w.key k' ((w.rival (rivalLink f.rivalsLanded)).chunk cs :: cs) ∧
      (Program.ask (.swapIndex w.owner w.namespaceName (Lineage.tip cs) (w.index cs)) next).run
          (Faults.backend b rivalLink) (s, f) =
        (next (.ok (.conflict (Lineage.index?
          ((w.rival (rivalLink f.rivalsLanded)).chunk cs :: cs))))).run
          (Faults.backend b rivalLink) (s', { f with
            pendingRivals := pending
            rivalsLanded := f.rivalsLanded + 1
            indexSwaps := f.indexSwaps + 1 }) := by
  have fits : (w.rival (rivalLink f.rivalsLanded)).Fits :=
    ⟨(by decide : 1 < UInt64.size), List.forall_mem_singleton.2 (hrival _)⟩
  obtain ⟨s', k', hland, hrep', hcarries'⟩ :=
    run_appendOnce (w := w.rival (rivalLink f.rivalsLanded)) keeps hrep apart fits hcarries hbs
  have hland' : (Access.appendOnce w.owner w.namespaceName
      [rivalLink f.rivalsLanded]).run.run b s = (.ok true, s') := hland
  -- Chunks that grew are never the same ones, so the head is not the one that is expected.
  have hmiss : (k'.index? w.key).map (·.head) ≠ Lineage.tip cs := by
    intro htip
    have hindex : k'.index? w.key = _ := hcarries'.shelved.index
    rw [hindex, Lineage.map_head_index?] at htip
    have hsuffix := List.suffix_cons ((w.rival (rivalLink f.rivalsLanded)).chunk cs) cs
    have hlength := congrArg List.length (Lineage.eq_of_tip_eq hcarries'.shelved.linked
      hcarries.shelved.linked hcarries'.shelved.kept (hcarries'.shelved.kept.of_suffix hsuffix)
      htip)
    rw [List.length_cons] at hlength
    omega
  have hswap : k'.swap w.key (Lineage.tip cs) (w.index cs) =
      (.conflict (Lineage.index? ((w.rival (rivalLink f.rivalsLanded)).chunk cs :: cs)), k') := by
    rw [Contents.swap, if_neg hmiss, ← hcarries'.shelved.index]
    rfl
  obtain ⟨hreply, hstore⟩ :=
    keeps.swapIndex hrep' w.owner w.namespaceName _ (w.index_normal cs) hswap
  refine ⟨_, k', hstore, hcarries', ?_⟩
  rw [Program.run, Faults.backend_swapIndex_after online hrivals hland', hreply]

end

theorem Tries.endsRace (keeps : b.Keeps rep) (apart : Cid.TellsApart pool) (fits : w.Fits)
    {rivalLink : Nat → Link} (hrival : ∀ n, (rivalLink n).body.Fits) {limit lost attempts : Nat}
    (hattempts : lost + attempts = limit) {rest : Program (Except OperationError Receipt)}
    (h : Tries w limit (.seen lost cs) rest) (hrep : rep s k) (hcarries : Carries pool w.key k cs)
    {f : Faults} (online : f.offline = false) (hputs : f.failingPuts = 0)
    (hpool : raceBytes w rivalLink f.rivalsLanded cs f.pendingRivals attempts ⊆ pool) :
    EndsRace rep pool w rivalLink limit lost attempts cs f
      (rest.run (Faults.backend b rivalLink) (s, f)) := by
  induction attempts generalizing lost cs rest s k f with
  | zero =>
    cases h with
    | put tries => omega
    | exhausted =>
      refine ⟨nofun, fun _ => ⟨rfl, k, hrep, hcarries⟩, ?_, ?_⟩
      · rw [Nat.min_zero]
        rfl
      · rw [Nat.min_zero]
        rfl
  | succ attempts ih =>
    cases h with
    | exhausted => omega
    | @put _ _ next tries stored refused =>
      obtain ⟨hput, hstore⟩ := keeps.put hrep (w.chunk cs).bytes
      have hown : (w.chunk cs).bytes ∈ pool := by
        refine hpool ?_
        cases hrivals : f.pendingRivals <;> simp [raceBytes]
      obtain ⟨hcarries', hblob⟩ := hcarries.put apart hown
      rw [Program.run, Faults.backend_put online hputs, hput]
      dsimp only
      generalize hrest : next (.ok (Cid.ofBytes (w.chunk cs).bytes)) = rest
      change Tries w limit (.stored lost cs) (next (.ok (Cid.ofBytes (w.chunk cs).bytes))) at stored
      rw [hrest] at stored
      cases stored with
      | swap tries swapped conflict refused =>
        cases hrivals : f.pendingRivals with
        | zero => exact swapped.endsRace_alone keeps fits hstore hcarries' hblob online hrivals
        | succ pending =>
          rw [hrivals, raceBytes] at hpool
          obtain ⟨-, hpool⟩ := List.cons_subset.1 hpool
          obtain ⟨hbs, hpool⟩ := List.cons_subset.1 hpool
          obtain ⟨s', k', hrep', hcarries'', hrun⟩ :=
            run_swap_after_rival keeps apart hrival hstore hcarries' hbs online hrivals
          rw [hrun]
          refine EndsRace.after_rival hrivals ?_
          exact ih (by omega) (conflict _) hrep' hcarries'' online hputs hpool

lemma forM_validate {links : List Link} (h : ∀ l ∈ links, l.body.validate = .ok ()) :
    (links.forM fun l => l.body.validate) = .ok () := by
  induction links with
  | nil => rfl
  | cons l links ih =>
    obtain ⟨hl, hlinks⟩ := List.forall_mem_cons.1 h
    rw [List.forM, hl]
    exact ih hlinks

/-- An append whose links are all valid races with the rivals that are waiting. -/
theorem Publisher.append_endsRace (p : Publisher) (keeps : b.Keeps rep)
    (apart : Cid.TellsApart pool) (fits : w.Fits) (howner : w.owner = p.owner)
    (hsome : w.links ≠ []) (hvalid : ∀ l ∈ w.links, l.body.validate = .ok ())
    {rivalLink : Nat → Link} (hrival : ∀ n, (rivalLink n).body.Fits) (hrep : rep s k)
    (hcarries : Carries pool w.key k cs) {f : Faults} (online : f.offline = false)
    (hputs : f.failingPuts = 0)
    (hpool : raceBytes w rivalLink f.rivalsLanded cs f.pendingRivals p.settings.maxAttempts ⊆
      pool) :
    EndsRace rep pool w rivalLink p.settings.maxAttempts 0 p.settings.maxAttempts cs f
      ((p.append w.namespaceName w.links).run (Faults.backend b rivalLink) (s, f)) := by
  have htries := p.append_tries_of_valid w howner hsome (forM_validate hvalid)
  change EndsRace rep pool w rivalLink p.settings.maxAttempts 0 p.settings.maxAttempts cs f
    ((p.append w.namespaceName w.links).program.run (Faults.backend b rivalLink) (s, f))
  generalize (p.append w.namespaceName w.links).program = program at htries
  cases htries with
  | load seen refused =>
    rw [Program.run, Faults.backend_loadIndex online,
      loadIndex_of_index? keeps hrep hcarries.shelved.index]
    exact (seen cs).endsRace keeps apart fits hrival (Nat.zero_add _) hrep hcarries online hputs
      hpool

end

structure HoldsChunks {σ : Type} (b : Backend σ) (store : σ) (owner : Address)
    (namespaceName : String) (cs : List Chunk) : Prop where
  index : b (.loadIndex owner namespaceName) store = (.ok (Lineage.index? cs), store)
  yields : Yields b store (Lineage.tip cs) cs

/-- What becomes of an append if rivals are waiting, and nobody else. -/
structure RacesRivals {σ : Type} (b : Backend σ) (w : Batch) (limit : Nat) (rivalLink : Nat → Link)
    (cs : List Chunk) (f : Faults) (result : Except OperationError Receipt × σ × Faults) :
    Prop where
  /-- With attempts left, it lands on top of all rivals. -/
  won : f.pendingRivals < limit →
    (∃ receipt, result.1 = .ok receipt ∧ receipt.attempts = f.pendingRivals + 1 ∧
      receipt.chunk = (w.chunk (rivalChunks w rivalLink f.rivalsLanded cs f.pendingRivals)).cid) ∧
      HoldsChunks b result.2.1 w.owner w.namespaceName
        (w.chunk (rivalChunks w rivalLink f.rivalsLanded cs f.pendingRivals) ::
          rivalChunks w rivalLink f.rivalsLanded cs f.pendingRivals)
  /-- Without, nothing is there but what rivals have put. -/
  lost : limit ≤ f.pendingRivals →
    result.1 = .error (.appendConflicts w.namespaceName limit) ∧
      HoldsChunks b result.2.1 w.owner w.namespaceName
        (rivalChunks w rivalLink f.rivalsLanded cs limit)
  swaps : result.2.2.indexSwaps = f.indexSwaps + min (f.pendingRivals + 1) limit
  rivals : result.2.2.rivalsLanded = f.rivalsLanded + min f.pendingRivals limit

section

variable {σ : Type} {b : Backend σ} {rep : σ → Contents → Prop} {pool : List Bytes} {k : Contents}
  {s : σ} {w : Batch} {cs : List Chunk}

lemma Shelved.holdsChunks (keeps : b.Keeps rep) (hrep : rep s k) (h : Shelved k w.key cs) :
    HoldsChunks b s w.owner w.namespaceName cs where
  index := loadIndex_of_index? keeps hrep h.index
  yields := yields_of_kept keeps hrep h.linked h.kept

lemma EndsRace.racesRivals (keeps : b.Keeps rep) {rivalLink : Nat → Link} {limit : Nat} {f : Faults}
    {result : Except OperationError Receipt × σ × Faults}
    (h : EndsRace rep pool w rivalLink limit 0 limit cs f result) :
    RacesRivals b w limit rivalLink cs f result where
  won hmore := by
    obtain ⟨⟨receipt, hok, hattempts, hchunk⟩, k', hrep, hcarries⟩ := h.won hmore
    rw [Nat.zero_add] at hattempts
    exact ⟨⟨receipt, hok, hattempts, hchunk⟩, hcarries.shelved.holdsChunks keeps hrep⟩
  lost hfew := by
    obtain ⟨herror, k', hrep, hcarries⟩ := h.lost hfew
    exact ⟨herror, hcarries.shelved.holdsChunks keeps hrep⟩
  swaps := h.swaps
  rivals := h.rivals

end

/-- What is true of a system in which appends race: no swap is lost without need, and rivals that
are injected before the swaps of one append, without any failure, have the effect that they should
have. -/
structure Races {σ : Type} (b : Backend σ) (s : System σ) : Prop where
  fair : ∀ task p namespaceName links rest,
    s.tasks[task]? = some ⟨.append p namespaceName links, rest⟩ →
      RacedFairly s.events task p namespaceName rest
  rivals : ∀ (p : Publisher) namespaceName links (rivalLink : Nat → Link) (f : Faults),
    Batch.Fits ⟨p.owner, namespaceName, links⟩ → links ≠ [] →
    (∀ l ∈ links, l.body.validate = .ok ()) → (∀ n, (rivalLink n).body.Fits) →
    f.offline = false → f.failingPuts = 0 →
      ∃ cs, HoldsChunks b s.store p.owner namespaceName cs ∧
        (Cid.TellsApart (s.storedBytes ++ raceBytes ⟨p.owner, namespaceName, links⟩ rivalLink
            f.rivalsLanded cs f.pendingRivals p.settings.maxAttempts) →
          RacesRivals b ⟨p.owner, namespaceName, links⟩ p.settings.maxAttempts rivalLink cs f
            ((p.append namespaceName links).run (Faults.backend b rivalLink) (s.store, f)))

lemma Sound.carries {σ : Type} {k : Contents} {chains : Address × String → List Chunk}
    {s : System σ} (h : Sound k chains s) (key : Address × String) (new : List Bytes) :
    Carries (s.storedBytes ++ new) key k (chains key) := by
  refine ⟨h.shelved key, fun cid bs hbs => ?_⟩
  obtain ⟨hcid, hmem⟩ := h.blobs cid bs hbs
  exact ⟨hcid, List.mem_append_left _ hmem⟩

theorem Sound.races {σ : Type} {b : Backend σ} {rep : σ → Contents → Prop} {k : Contents}
    {chains chains' : Address × String → List Chunk} {s : System σ} (keeps : b.Keeps rep)
    (hrep : rep s.store k) (h : Sound k chains s) (hraced : Raced chains' s) : Races b s where
  fair task p namespaceName links rest turn := hraced.racedFairly turn
  rivals p namespaceName links rivalLink f fits hsome hvalid hrival online hputs := by
    have hshelved := h.shelved (p.owner, Text.lower namespaceName)
    refine ⟨chains (p.owner, Text.lower namespaceName),
      Shelved.holdsChunks (w := ⟨p.owner, namespaceName, links⟩) keeps hrep hshelved,
      fun apart => ?_⟩
    exact EndsRace.racesRivals keeps (p.append_endsRace (w := ⟨p.owner, namespaceName, links⟩)
      keeps apart fits rfl hsome hvalid hrival hrep (h.carries _ _) online hputs
      (List.subset_append_right ..))

/-- Whatever calls were made side by side, and in whatever order their requests were served or
refused: appends race fairly. Requests that go through a layer of faults are such requests. -/
theorem races_of_reachable {s : System Memory}
    (hrun : System.Run Memory.backend (.start .empty) s) (hfree : s.CollisionFree) :
    Races Memory.backend s ∧ s.CoversFaults Memory.backend := by
  obtain ⟨k, chains, hrep, -, hsound⟩ :=
    (Sound.start Memory.empty).run Memory.backend_keeps Memory.contents_empty hrun hfree
  obtain ⟨chains', hraced⟩ := Raced.run Memory.backend_keeps
    Memory.contents_empty (Sound.start Memory.empty) (fun _ _ _ _ _ turn => by cases turn) hrun
    hfree
  exact ⟨hsound.races Memory.backend_keeps hrep hraced, System.covers_faults _ s⟩

/-- A publisher that tries once. -/
def hastyPublisher : Publisher :=
  { samplePublisher with settings := { PublisherSettings.standard with maxAttempts := 1 } }

def hastyCall : Call := .append hastyPublisher "dOCS" [sampleLink]

/-- Two appends to one namespace, of which the second loses its only swap. -/
def racingSystem : System Memory :=
  (((System.start Memory.empty).called sampleCall).called hastyCall).schedule Memory.backend
    [0, 1, 0, 1, 0, 1]

lemma hastyCall_fits (w : Batch) (h : hastyCall.batch? = some w) : w.Fits := by
  cases h
  refine ⟨(by decide : 1 < UInt64.size), List.forall_mem_singleton.2 ?_⟩
  exact ⟨by decide, by decide, nofun, nofun⟩

lemma racingSystem_run : System.Run Memory.backend (.start .empty) racingSystem :=
  .head (.begin sampleCall sampleCall_fits) (.head (.begin hastyCall hastyCall_fits)
    (System.run_schedule ..))

lemma racingSystem_collisionFree : racingSystem.CollisionFree := by
  have hbytes : racingSystem.storedBytes =
      [Chunk.bytes ⟨none, [sampleLink]⟩, Chunk.bytes ⟨none, [sampleLink]⟩] := by decide +kernel
  change Cid.TellsApart racingSystem.storedBytes
  refine Cid.tellsApart_of_forall_eq (Chunk.bytes ⟨none, [sampleLink]⟩) ?_
  simp [hbytes]

def Task.Exhausted (t : Task) : Bool :=
  match t.rest with
  | .done (.error (.appendConflicts ..)) => true
  | _ => false

lemma racingSystem_exhausted : ∃ name attempts, racingSystem.tasks[1]? =
    some ⟨hastyCall, .done (.error (.appendConflicts name attempts))⟩ := by
  have hcall : racingSystem.call? 1 = some hastyCall :=
    System.call?_of_run (s := ((System.start Memory.empty).called sampleCall).called hastyCall)
      (System.run_schedule Memory.backend _ _) rfl
  have hexhausted : (racingSystem.tasks[1]?).any Task.Exhausted = true := by decide +kernel
  obtain ⟨⟨call, rest⟩, ht, rfl⟩ := Option.map_eq_some_iff.1 hcall
  rw [ht] at hexhausted ⊢
  cases rest with
  | ask r next => cases hexhausted
  | done outcome =>
    cases outcome with
    | ok receipt => cases hexhausted
    | error e =>
      cases e with
      | appendConflicts name attempts => exact ⟨name, attempts, rfl⟩
      | _ => cases hexhausted

/-- In the sample the second append has lost its swap to the first. Next to it, the second append
alone with a rival. -/
theorem racingSystem_races :
    System.Run Memory.backend (.start .empty) racingSystem ∧ racingSystem.CollisionFree ∧
      Races Memory.backend racingSystem ∧ racingSystem.CoversFaults Memory.backend ∧
      1 ≤ (Log.landingsOfOthers (Log.during racingSystem.events 1)
        (hastyPublisher.owner, Text.lower "dOCS") 1).length ∧
      RacesRivals Memory.backend ⟨hastyPublisher.owner, "dOCS", [sampleLink]⟩ 1
        (fun _ => sampleLink) [] { Faults.quiet with pendingRivals := 1 }
        ((hastyPublisher.append "dOCS" [sampleLink]).run
          (Faults.backend Memory.backend fun _ => sampleLink)
          (.empty, { Faults.quiet with pendingRivals := 1 })) := by
  obtain ⟨hraces, hfaults⟩ := races_of_reachable racingSystem_run racingSystem_collisionFree
  refine ⟨racingSystem_run, racingSystem_collisionFree, hraces, hfaults, ?_, ?_⟩
  · obtain ⟨name, attempts, turn⟩ := racingSystem_exhausted
    obtain ⟨-, rfl, hothers⟩ := (hraces.fair _ _ _ _ _ turn).exhausted name attempts rfl
    exact hothers
  · have hempty := (races_of_reachable (s := .start .empty) .refl nofun).1
    obtain ⟨cs, hholds, hrivals⟩ := hempty.rivals hastyPublisher "dOCS" [sampleLink]
      (fun _ => sampleLink) { Faults.quiet with pendingRivals := 1 } (hastyCall_fits _ rfl)
      (List.cons_ne_nil _ _) (List.forall_mem_singleton.2 (by decide))
      (fun _ => ⟨by decide, by decide, nofun, nofun⟩) rfl rfl
    have hindex : Lineage.index? cs = none :=
      (Except.ok.inj (congrArg Prod.fst hholds.index)).symm
    obtain rfl : cs = [] := by
      cases cs with
      | nil => rfl
      | cons c older => cases hindex
    refine hrivals (Cid.tellsApart_of_forall_eq (Chunk.bytes ⟨none, [sampleLink]⟩) ?_)
    exact List.forall_mem_cons.2 ⟨rfl, List.forall_mem_singleton.2 rfl⟩

end SignedNames
