import Mathlib
import SignedNames.Proofs.Appending

/-!
# Calls that run side by side

Any number of calls share a store. Their requests are served one at a time in any order, and each
may be refused instead. All requests are recorded with their replies.
-/
namespace SignedNames

/-- What a publisher is called for, or what a rival does. -/
inductive Call
  | append (p : Publisher) (namespaceName : String) (links : List Link)
  | publish (p : Publisher) (namespaceName : String) (d : LinkDraft) (time : UInt64) (nonce : Nonce)
  /-- An append that does not try again. -/
  | rival (owner : Address) (namespaceName : String) (links : List Link)
  | syncProfile (p : Publisher) (namespaceName : String)
  | registerKey (p : Publisher) (validFrom : UInt64) (validTo : Option UInt64)
  | revokeKey (p : Publisher) (fingerprint : String) (time : UInt64)
  | updateProfile (p : Publisher) (edit : Profile → Profile)

namespace Call

abbrev Answer : Call → Type
  | append .. => Receipt
  | publish .. => Link × Receipt
  | rival .. => Bool
  | syncProfile .. => Unit
  | registerKey .. => Address
  | revokeKey .. => Unit
  | updateProfile .. => Edited Unit

def operation : (c : Call) → Operation c.Answer
  | append p namespaceName links => p.append namespaceName links
  | publish p namespaceName d time nonce => p.publish namespaceName d time nonce
  | rival owner namespaceName links =>
    Operation.access (Access.appendOnce owner namespaceName links)
  | syncProfile p namespaceName => p.syncProfile namespaceName
  | registerKey p validFrom validTo => p.registerKey validFrom validTo
  | revokeKey p fingerprint time => p.revokeKey fingerprint time
  | updateProfile p edit => p.updateProfile edit

def batch? : Call → Option Batch
  | append p namespaceName links => some ⟨p.owner, namespaceName, links⟩
  | publish p namespaceName d time nonce =>
    match p.sign d time nonce with
    | .ok link => some ⟨p.owner, namespaceName, [link]⟩
    | .error _ => none
  | rival owner namespaceName links => some ⟨owner, namespaceName, links⟩
  | _ => none

/-- The result admits that nothing was appended. -/
def Fails : (c : Call) → Except OperationError c.Answer → Prop
  | append .. => Failed
  | publish .. => Failed
  | rival .. => fun outcome => ∀ landed, outcome = .ok landed → landed = false
  | _ => fun _ => True

/-- The result tells that the newest of some chunks was appended. -/
def Lands : (c : Call) → List Chunk → Except OperationError c.Answer → Prop
  | append .. => Publisher.Tells
  | publish .. => fun cs outcome => Publisher.Tells cs (outcome.map Prod.snd)
  | rival .. => fun _ outcome => outcome = .ok true
  | _ => fun _ _ => True

end Call

/-- A batch as it can be held in memory. -/
structure Batch.Fits (w : Batch) : Prop where
  length : w.links.length < UInt64.size
  links : ∀ l ∈ w.links, l.body.Fits

structure Task where
  call : Call
  rest : Program (Except OperationError call.Answer)

structure Event where
  task : Nat
  request : Request
  reply : request.Reply

/-- A store, the tasks that use it in the order in which they were begun, and what was asked of it
since, oldest first. -/
structure System (σ : Type) where
  store : σ
  tasks : List Task
  events : List Event

structure Landing where
  task : Nat
  key : Address × String
  index : NameIndex

namespace Event

def landing? : Event → Option Landing
  | ⟨task, .swapIndex owner namespaceName _ next, .ok .swapped⟩ =>
    some ⟨task, (owner, Text.lower namespaceName), next⟩
  | _ => none

def stored? : Event → Option Bytes
  | ⟨_, .put bs, .ok _⟩ => some bs
  | _ => none

def ChangesRecord : Event → Prop
  | ⟨_, .swapIndex .., .ok .swapped⟩ => True
  | ⟨_, .swapProfile .., .ok .swapped⟩ => True
  | _ => False

end Event

namespace System

variable {σ : Type}

def start (store : σ) : System σ := ⟨store, [], []⟩

/-- All swaps of indexes that landed, oldest first. -/
def landings (s : System σ) : List Landing := s.events.filterMap Event.landing?

def landingsAt (s : System σ) (key : Address × String) : List Landing :=
  s.landings.filter fun l => l.key = key

def landingsBy (s : System σ) (task : Nat) : List Landing :=
  s.landings.filter fun l => l.task = task

def storedBytes (s : System σ) : List Bytes := s.events.filterMap Event.stored?

/-- No two of the stored byte strings have the same identifier. -/
def CollisionFree (s : System σ) : Prop :=
  ∀ a ∈ s.storedBytes, ∀ b ∈ s.storedBytes, Cid.ofBytes a = Cid.ofBytes b → a = b

def batch? (s : System σ) (task : Nat) : Option Batch := (s.tasks[task]?).bind (·.call.batch?)

/-- The links that were committed under a key, one list for each landing, oldest first. -/
def committed (s : System σ) (key : Address × String) : List (List Link) :=
  (s.landingsAt key).filterMap fun l => (s.batch? l.task).map (·.links)

def called (s : System σ) (c : Call) : System σ :=
  { s with tasks := s.tasks ++ [⟨c, c.operation.program⟩] }

def replied (s : System σ) (store : σ) (task : Nat) (call : Call) (r : Request) (reply : r.Reply)
    (rest : Program (Except OperationError call.Answer)) : System σ :=
  ⟨store, s.tasks.set task ⟨call, rest⟩, s.events ++ [⟨task, r, reply⟩]⟩

inductive Step (b : Backend σ) : System σ → System σ → Prop
  | begin {s : System σ} (c : Call) (fits : ∀ w, c.batch? = some w → w.Fits) : Step b s (s.called c)
  | serve {s : System σ} {task : Nat} {call : Call} {r : Request}
    {next : r.Reply → Program (Except OperationError call.Answer)}
    (turn : s.tasks[task]? = some ⟨call, .ask r next⟩) :
    Step b s
      (s.replied (b r s.store).2 task call r (b r s.store).1 (next (b r s.store).1))
  /-- The next request of a task is refused before it reaches the store. -/
  | refuse {s : System σ} {task : Nat} {call : Call} {r : Request}
    {next : r.Reply → Program (Except OperationError call.Answer)}
    (turn : s.tasks[task]? = some ⟨call, .ask r next⟩) (e : StoreError) :
    Step b s (s.replied s.store task call r (.error e) (next (.error e)))

abbrev Run (b : Backend σ) : System σ → System σ → Prop := Relation.ReflTransGen (Step b)

def served (b : Backend σ) (s : System σ) (task : Nat) : System σ :=
  match s.tasks[task]? with
  | some ⟨call, .ask r next⟩ =>
    s.replied (b r s.store).2 task call r (b r s.store).1 (next (b r s.store).1)
  | _ => s

def schedule (b : Backend σ) (s : System σ) (turns : List Nat) : System σ := turns.foldl (served b) s

lemma run_schedule (b : Backend σ) (s : System σ) (turns : List Nat) :
    Run b s (s.schedule b turns) := by
  induction turns generalizing s with
  | nil => exact .refl
  | cons task turns ih =>
    refine Relation.ReflTransGen.trans ?_ (ih (s.served b task))
    unfold served
    split
    · rename_i turn
      exact .single (.serve turn)
    · exact .refl

lemma schedule_append (b : Backend σ) (s : System σ) (turns later : List Nat) :
    s.schedule b (turns ++ later) = (s.schedule b turns).schedule b later := List.foldl_append

lemma forall_call_schedule {P : Call → Prop} (b : Backend σ) {s : System σ}
    (h : ∀ state ∈ s.tasks, P state.call) (turns : List Nat) :
    ∀ state ∈ (s.schedule b turns).tasks, P state.call := by
  induction turns generalizing s with
  | nil => exact h
  | cons task turns ih =>
    refine ih (s := s.served b task) ?_
    unfold served
    split
    · rename_i call r next turn
      intro state hstate
      rcases List.mem_or_eq_of_mem_set hstate with hstate | rfl
      · exact h state hstate
      · exact h ⟨call, .ask r next⟩ (List.mem_of_getElem? turn)
    · exact h

section

variable {s : System σ} {store : σ} {task : Nat} {call : Call} {r : Request} {reply : r.Reply}
  {rest : Program (Except OperationError call.Answer)}

lemma landings_replied : (s.replied store task call r reply rest).landings =
    s.landings ++ (Event.landing? ⟨task, r, reply⟩).toList := by
  rw [landings, replied, List.filterMap_append]
  congr 1

lemma storedBytes_replied : (s.replied store task call r reply rest).storedBytes =
    s.storedBytes ++ (Event.stored? ⟨task, r, reply⟩).toList := by
  rw [storedBytes, replied, List.filterMap_append]
  congr 1

lemma batch?_replied {old : Program (Except OperationError call.Answer)}
    (turn : s.tasks[task]? = some ⟨call, old⟩) (i : Nat) :
    (s.replied store task call r reply rest).batch? i = s.batch? i := by
  by_cases hi : task = i
  · subst hi
    obtain ⟨hlt, hget⟩ := List.getElem?_eq_some_iff.1 turn
    simp [batch?, replied, hlt, hget]
  · simp [batch?, replied, hi]

end

lemma batch?_called {s : System σ} {i : Nat} {w : Batch} (h : s.batch? i = some w) (c : Call) :
    (s.called c).batch? i = some w := by
  obtain ⟨t, ht, hw⟩ := Option.bind_eq_some_iff.1 h
  rw [batch?, called, List.getElem?_append_left (List.getElem?_eq_some_iff.1 ht).1, ht]
  exact hw

lemma CollisionFree.of_step {b : Backend σ} {s t : System σ} (h : t.CollisionFree)
    (hstep : Step b s t) : s.CollisionFree := by
  have hsub : s.storedBytes ⊆ t.storedBytes := by
    cases hstep with
    | «begin» => exact List.Subset.refl _
    | serve => exact storedBytes_replied ▸ List.subset_append_left ..
    | refuse => exact storedBytes_replied ▸ List.subset_append_left ..
  exact fun a ha b hb => h a (hsub ha) b (hsub hb)

lemma CollisionFree.of_run {b : Backend σ} {s t : System σ} (h : t.CollisionFree)
    (hrun : Run b s t) : s.CollisionFree := by
  induction hrun with
  | refl => exact h
  | tail _ hstep ih => exact ih (h.of_step hstep)

lemma prefix_events {b : Backend σ} {s t : System σ} (hrun : Run b s t) :
    s.events <+: t.events := by
  induction hrun with
  | refl => exact List.prefix_refl _
  | tail _ hstep ih =>
    refine ih.trans ?_
    cases hstep with
    | «begin» => exact List.prefix_refl _
    | serve => exact List.prefix_append ..
    | refuse => exact List.prefix_append ..

lemma forall_call_of_step {b : Backend σ} {s t : System σ} {P : Call → Prop}
    (h : ∀ state ∈ t.tasks, P state.call) (hstep : Step b s t) :
    ∀ state ∈ s.tasks, P state.call := by
  have hreplied {store : σ} {task : Nat} {call : Call} {r : Request} {reply : r.Reply}
      {old rest : Program (Except OperationError call.Answer)}
      (turn : s.tasks[task]? = some ⟨call, old⟩)
      (h : ∀ state ∈ (s.replied store task call r reply rest).tasks, P state.call) :
      ∀ state ∈ s.tasks, P state.call := by
    intro state hstate
    obtain ⟨i, hi⟩ := List.getElem?_of_mem hstate
    by_cases htask : task = i
    · subst htask
      have heq : state = ⟨call, old⟩ := Option.some.inj (hi.symm.trans turn)
      subst heq
      have hlt : task < s.tasks.length := (List.getElem?_eq_some_iff.1 turn).1
      exact h ⟨call, rest⟩ (List.mem_of_getElem? (i := task) (by simp [replied, hlt]))
    · exact h state (List.mem_of_getElem? (i := i) (by simp [replied, htask, hi]))
  cases hstep with
  | «begin» c fits => exact fun state hstate => h state (List.mem_append_left _ hstate)
  | serve turn => exact hreplied turn h
  | refuse turn e => exact hreplied turn h

lemma collisionFree_of_nodup {s : System σ} (h : (s.storedBytes.map Cid.ofBytes).Nodup) :
    s.CollisionFree := fun _ ha _ hb => List.inj_on_of_nodup_map h ha hb

lemma collisionFree_of_singleton {s : System σ} {bs : Bytes} (h : s.storedBytes = [bs]) :
    s.CollisionFree := by
  intro a ha b hb _
  rw [h, List.mem_singleton] at ha hb
  rw [ha, hb]

end System

namespace Call

theorem follows {c : Call} {w : Batch} (h : c.batch? = some w) :
    Follows w c.Fails (fun cs => c.Lands (w.chunk cs :: cs)) .start c.operation.program := by
  cases c with
  | append p namespaceName links =>
    cases h
    exact p.append_follows ⟨p.owner, namespaceName, links⟩ rfl
  | publish p namespaceName d time nonce =>
    cases hsign : p.sign d time nonce with
    | error e => simp [batch?, hsign] at h
    | ok link =>
      have hw : w = ⟨p.owner, namespaceName, [link]⟩ := by simpa [batch?, hsign] using h.symm
      subst hw
      exact p.publish_follows ⟨p.owner, namespaceName, [link]⟩ rfl hsign rfl
  | rival owner namespaceName links =>
    cases h
    exact Access.appendOnce_follows ⟨owner, namespaceName, links⟩
  | _ => simp [batch?] at h

theorem quiet {c : Call} (h : c.batch? = none) : c.operation.program.Asks Request.Quiet := by
  cases c with
  | append => simp [batch?] at h
  | rival => simp [batch?] at h
  | publish p namespaceName d time nonce =>
    cases hsign : p.sign d time nonce with
    | ok link => simp [batch?, hsign] at h
    | error e =>
      rw [operation, Publisher.publish, hsign, Operation.program_bind, Operation.program_check]
      trivial
  | syncProfile p namespaceName => exact p.syncProfile_quiet namespaceName
  | registerKey p validFrom validTo =>
    rw [operation, Publisher.registerKey, Operation.program_bind, Operation.program_check,
      Program.bind_done]
    cases (p.signingKey validFrom validTo).fingerprint with
    | error e => trivial
    | ok fingerprint =>
      exact Operation.asks_bind (p.editProfileTimes_quiet _ _ _) fun edited => trivial
  | revokeKey p fingerprint time =>
    refine Operation.asks_bind (p.editProfileTimes_quiet _ _ _) fun edited => ?_
    cases edited.answer <;> trivial
  | updateProfile p edit => exact p.editProfileTimes_quiet _ _ _

end Call
end SignedNames
