import Mathlib
import SignedNames.Proofs.Lineage
import SignedNames.Proofs.Programs
import SignedNames.Proofs.Store.Contents
import SignedNames.Proofs.Text.LowerCase
import SignedNames.Store.Faults

/-!
# How an append goes

An append is followed from request to request. At any time it works on top of the chunks that were
the newest when it last heard of the index, and it swaps in the one index that belongs to its chunk
on top of them. Once the swap has landed, it only reads, and edits the profile.
-/
namespace SignedNames

namespace Lineage

lemma normal_foldl_insert {m : NameMap Cid} (h : ∀ e ∈ m.entries, Text.lower e.1 = e.1) (cid : Cid)
    (links : List Link) : ∀ e ∈ (links.foldl (fun entries l => entries.insert l.body.key cid)
      m).entries, Text.lower e.1 = e.1 := by
  induction links generalizing m with
  | nil => exact h
  | cons l links ih =>
    exact ih (NameMap.forall_entries_insert (P := fun key => Text.lower key = key)
      (Text.lower_lower _) h)

theorem normal_index? {cs : List Chunk} {i : NameIndex} (h : index? cs = some i) : i.Normal := by
  have hentries : ∀ e ∈ (entries cs).entries, Text.lower e.1 = e.1 := by
    clear h
    induction cs with
    | nil => exact nofun
    | cons c older ih => exact normal_foldl_insert ih c.cid c.links
  have hi : entries cs = i.entries := by
    rw [entries, h]
    rfl
  rw [NameIndex.Normal, ← hi]
  exact hentries

end Lineage

/-- Links, and where they are to be appended. -/
structure Batch where
  owner : Address
  namespaceName : String
  links : List Link

namespace Batch

def key (w : Batch) : Address × String := (w.owner, Text.lower w.namespaceName)

/-- The chunk that puts the links on top of others. -/
def chunk (w : Batch) (cs : List Chunk) : Chunk := ⟨Lineage.tip cs, w.links⟩

def index (w : Batch) (cs : List Chunk) : NameIndex :=
  .advance (Lineage.index? cs) (w.chunk cs).cid (w.chunk cs)

theorem index?_chunk (w : Batch) (cs : List Chunk) :
    Lineage.index? (w.chunk cs :: cs) = some (w.index cs) := rfl

theorem index_normal (w : Batch) (cs : List Chunk) : (w.index cs).Normal :=
  Lineage.normal_index? (w.index?_chunk cs)

end Batch

/-- How far an append has got, and the chunks that its own one is on top of. -/
inductive Phase
  | start
  | seen (cs : List Chunk)
  | stored (cs : List Chunk)
  | landed (cs : List Chunk)

def Phase.Landed : Phase → Prop
  | .landed _ => True
  | _ => False

/-- The rest of an append in a phase. `fails` says which results admit that nothing was appended,
and `lands` which results tell of the chunk that was put on top of some others. -/
inductive Follows {α : Type} (w : Batch) (fails : α → Prop) (lands : List Chunk → α → Prop) :
    Phase → Program α → Prop
  | fail {phase : Phase} {result : α} (open' : ¬ phase.Landed) (h : fails result) :
    Follows w fails lands phase (.done result)
  | load {next : Except StoreError (Option NameIndex) → Program α}
    (seen : ∀ cs, Follows w fails lands (.seen cs) (next (.ok (Lineage.index? cs))))
    (refused : ∀ e, Follows w fails lands .start (next (.error e))) :
    Follows w fails lands .start (.ask (.loadIndex w.owner w.namespaceName) next)
  | put {cs : List Chunk} {next : Except StoreError Cid → Program α}
    (stored : Follows w fails lands (.stored cs) (next (.ok (w.chunk cs).cid)))
    (refused : ∀ e, Follows w fails lands (.seen cs) (next (.error e))) :
    Follows w fails lands (.seen cs) (.ask (.put (w.chunk cs).bytes) next)
  | swap {cs : List Chunk} {next : Except StoreError (Swap NameIndex) → Program α}
    (swapped : Follows w fails lands (.landed cs) (next (.ok .swapped)))
    (lost : ∀ now, Follows w fails lands (.seen now) (next (.ok (.conflict (Lineage.index? now)))))
    (refused : ∀ e, Follows w fails lands (.stored cs) (next (.error e))) :
    Follows w fails lands (.stored cs)
      (.ask (.swapIndex w.owner w.namespaceName (Lineage.tip cs) (w.index cs)) next)
  | landed {cs : List Chunk} {rest : Program α} (quiet : rest.Asks Request.Quiet)
    (ends : rest.Ends (lands cs)) : Follows w fails lands (.landed cs) rest

namespace Follows

variable {α β : Type} {w : Batch} {fails : α → Prop} {lands : List Chunk → α → Prop}

theorem bind_done {fails' : β → Prop} {lands' : List Chunk → β → Prop} {f : α → Program β}
    {g : α → β} (hf : ∀ a, f a = .done (g a)) (hfails : ∀ a, fails a → fails' (g a))
    (hlands : ∀ cs a, lands cs a → lands' cs (g a)) {phase : Phase} {rest : Program α}
    (h : Follows w fails lands phase rest) : Follows w fails' lands' phase (rest.bind f) := by
  induction h with
  | fail open' h =>
    rw [Program.bind_done, hf]
    exact .fail open' (hfails _ h)
  | load _ _ seen refused => exact .load seen refused
  | put _ _ stored refused => exact .put stored refused
  | swap _ _ _ swapped lost refused => exact .swap swapped lost refused
  | landed quiet ends =>
    refine .landed (quiet.bind fun a => ?_) (ends.bind fun a ha => ?_)
    · rw [hf]
      trivial
    · rw [hf]
      exact hlands _ a ha

theorem refused {phase : Phase} {r : Request} {next : r.Reply → Program α}
    (h : Follows w fails lands phase (.ask r next)) (e : StoreError) :
    Follows w fails lands phase (next (.error e)) := by
  cases h with
  | load seen refused => exact refused e
  | put stored refused => exact refused e
  | swap swapped lost refused => exact refused e
  | landed quiet ends => exact .landed (quiet.2 _) (ends _)

end Follows

namespace Publisher

variable (p : Publisher)

lemma refresh_quiet (profile : Profile) (refreshed : Option String) :
    (p.refresh profile refreshed).program.Asks Request.Quiet := by
  cases refreshed with
  | none => trivial
  | some namespaceName =>
    rw [refresh, Operation.program_ask_bind]
    refine ⟨trivial, fun reply => ?_⟩
    rcases reply with e | _ | index <;> trivial

theorem editProfileTimes_quiet {β : Type} (refreshed : Option String)
    (edit : Profile → Profile × β) (attempts : Nat) :
    (p.editProfileTimes refreshed edit attempts).program.Asks Request.Quiet := by
  induction attempts with
  | zero => trivial
  | succ attempts ih =>
    rw [editProfileTimes, Operation.program_ask_bind]
    refine ⟨trivial, fun reply => ?_⟩
    cases reply with
    | error e => trivial
    | ok current =>
      refine Operation.asks_bind (p.refresh_quiet _ _) fun profile => ?_
      rw [Operation.program_ask_bind]
      refine ⟨trivial, fun reply => ?_⟩
      rcases reply with e | _ | now
      · trivial
      · trivial
      · exact ih

theorem syncProfile_quiet (namespaceName : String) :
    (p.syncProfile namespaceName).program.Asks Request.Quiet := by
  rw [syncProfile, Operation.program_map]
  exact (p.editProfileTimes_quiet _ _ _).bind fun outcome => trivial

/-- The result tells of the newest of some chunks and of the index that goes with it. -/
def Tells (cs : List Chunk) (outcome : Except OperationError Receipt) : Prop :=
  ∃ receipt, outcome = .ok receipt ∧ Lineage.tip cs = some receipt.chunk ∧
    Lineage.index? cs = some receipt.index

end Publisher

def Failed {α : Type} (outcome : Except OperationError α) : Prop := ∃ e, outcome = .error e

namespace Publisher

variable (p : Publisher)

theorem appendTimes_follows (w : Batch) (howner : w.owner = p.owner) (attempts : Nat)
    (cs : List Chunk) :
    Follows w Failed (fun cs => Tells (w.chunk cs :: cs)) (.seen cs)
      (p.appendTimes w.namespaceName w.links attempts (Lineage.index? cs)).program := by
  induction attempts generalizing cs with
  | zero => exact .fail id ⟨_, rfl⟩
  | succ attempts ih =>
    rw [appendTimes, Lineage.map_head_index?, Operation.program_putChunk_bind]
    refine .put ?_ fun e => .fail id ⟨_, rfl⟩
    rw [Operation.after_mapError_ok, Operation.program_ask_bind, ← howner]
    refine .swap ?_ ?_ fun e => .fail id ⟨_, rfl⟩
    · refine .landed (Operation.asks_bind ?_ fun synced => trivial) ?_
      · exact (p.syncProfile_quiet _).bind fun outcome => trivial
      · rw [Operation.after_mapError_ok, Operation.program_bind, Operation.program_attempt,
          Program.bind_assoc]
        refine (Program.ends_of_forall (fun _ => trivial) _).bind fun outcome _ => ?_
        exact ⟨_, rfl, rfl, rfl⟩
    · intro now
      exact ih now

theorem append_follows (w : Batch) (howner : w.owner = p.owner) :
    Follows w Failed (fun cs => Tells (w.chunk cs :: cs)) .start
      (p.append w.namespaceName w.links).program := by
  rw [append]
  split
  · exact .fail id ⟨_, rfl⟩
  · beta_reduce
    rw [Operation.program_bind, Operation.program_check, Program.bind_done]
    cases w.links.forM fun l => l.body.validate with
    | error e => exact .fail id ⟨_, rfl⟩
    | ok _ =>
      rw [Operation.after_mapError_ok, Operation.program_ask_bind, ← howner]
      exact .load (p.appendTimes_follows w howner _) fun e => .fail id ⟨_, rfl⟩

/-- A published link is appended alone; one that cannot be signed is not appended at all. -/
theorem publish_follows (w : Batch) (howner : w.owner = p.owner) {d : LinkDraft} {time : UInt64}
    {nonce : Nonce} {link : Link} (hsign : p.sign d time nonce = .ok link)
    (hlinks : w.links = [link]) :
    Follows w Failed
      (fun cs outcome => Tells (w.chunk cs :: cs) (outcome.map Prod.snd)) .start
      (p.publish w.namespaceName d time nonce).program := by
  rw [publish, hsign, Operation.program_bind, Operation.program_check, Program.bind_done,
    Operation.after_mapError_ok, Operation.program_bind, ← hlinks]
  refine (p.append_follows w howner).bind_done (g := fun outcome => outcome.map (link, ·))
    ?_ ?_ ?_
  · intro outcome
    cases outcome <;> rfl
  · rintro _ ⟨e, rfl⟩
    exact ⟨e, rfl⟩
  · rintro cs _ ⟨receipt, rfl, h⟩
    exact ⟨receipt, rfl, h⟩

end Publisher

theorem Access.appendOnce_follows (w : Batch) :
    Follows w (fun outcome => ∀ landed, outcome = .ok landed → landed = false)
      (fun _ outcome => outcome = .ok true) .start
      (Operation.access (Access.appendOnce w.owner w.namespaceName w.links)).program := by
  rw [Access.appendOnce, Operation.program_access_bind]
  refine .load ?_ fun e => .fail id nofun
  intro cs
  rw [Operation.afterReply, Lineage.map_head_index?, Operation.program_access_putChunk]
  refine .put ?_ fun e => .fail id nofun
  rw [Operation.afterReply, Operation.program_access_bind]
  refine .swap (.landed trivial rfl) ?_ fun e => .fail id nofun
  intro now
  refine .fail id ?_
  intro landed hlanded
  cases hlanded
  rfl

end SignedNames
