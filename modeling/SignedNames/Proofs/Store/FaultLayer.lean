import Mathlib
import SignedNames.Proofs.Interleaving

/-!
# What a layer of faults does

A request that goes through a layer of faults is refused, or is served after a rival's append, which
could as well have been made by a call of its own. So a layer of faults lets nothing happen that
calls side by side could not do.
-/
namespace SignedNames

variable {σ : Type} {b : Backend σ}

/-- A request that goes through the layer is refused or served, perhaps after a rival's append. -/
lemma Faults.backend_cases (b : Backend σ) (rivalLink : Nat → Link) (r : Request) (s : σ)
    (f : Faults) :
    ∃ s', (s' = s ∨ ∃ owner namespaceName n,
        s' = ((Access.appendOnce owner namespaceName [rivalLink n]).run.run b s).2) ∧
      ((∃ e f', backend b rivalLink r (s, f) = (.error e, (s', f'))) ∨
        ∃ f', backend b rivalLink r (s, f) = ((b r s').1, ((b r s').2, f'))) := by
  by_cases hoffline : f.offline
  · exact ⟨s, .inl rfl, .inl ⟨_, _, if_pos hoffline⟩⟩
  cases r with
  | put bs =>
    simp only [backend, if_neg hoffline]
    split
    · exact ⟨s, .inl rfl, .inl ⟨_, _, rfl⟩⟩
    · exact ⟨s, .inl rfl, .inr ⟨_, rfl⟩⟩
  | swapProfile owner expected next =>
    simp only [backend, if_neg hoffline]
    split
    · exact ⟨s, .inl rfl, .inl ⟨_, _, rfl⟩⟩
    · exact ⟨s, .inl rfl, .inr ⟨_, rfl⟩⟩
  | swapIndex owner namespaceName expected next =>
    simp only [backend, if_neg hoffline]
    by_cases hrivals : 0 < f.pendingRivals
    · refine ⟨_, .inr ⟨owner, namespaceName, f.rivalsLanded, rfl⟩, ?_⟩
      rw [if_pos hrivals]
      simp only [landRival]
      generalize (Access.appendOnce owner namespaceName [rivalLink f.rivalsLanded]).run.run b s =
        landed
      obtain ⟨e | landed, s'⟩ := landed
      · exact .inl ⟨_, _, rfl⟩
      · cases landed <;> exact .inr ⟨_, rfl⟩
    · rw [if_neg hrivals]
      exact ⟨s, .inl rfl, .inr ⟨_, rfl⟩⟩
  | _ => exact ⟨s, .inl rfl, .inr ⟨_, if_neg hoffline⟩⟩

namespace System

/-- The state of one task and those of the others after some of the others came and went. -/
structure Reaches (b : Backend σ) (s t : System σ) (store : σ) (task : Nat) (state : Task) :
    Prop where
  run : Run b s t
  store : t.store = store
  own : t.tasks[task]? = some state
  others : ∀ i < s.tasks.length, i ≠ task → t.tasks[i]? = s.tasks[i]?

/-- The layer is not seen from outside: whatever is going to fail, and whatever rivals are waiting,
a call that comes to its next request through the layer goes on as in some run without it. -/
def CoversFaults (b : Backend σ) (s : System σ) : Prop :=
  ∀ (task : Nat) (call : Call) (r : Request)
    (next : r.Reply → Program (Except OperationError call.Answer)),
    s.tasks[task]? = some ⟨call, .ask r next⟩ →
    ∀ (f : Faults) (rivalLink : Nat → Link), (∀ n, (rivalLink n).body.Fits) →
      ∃ t, Reaches b s t (Faults.backend b rivalLink r (s.store, f)).2.1 task
        ⟨call, next (Faults.backend b rivalLink r (s.store, f)).1⟩

def AddsRivals (s t : System σ) : Prop :=
  ∀ state ∈ t.tasks, (∃ old ∈ s.tasks, old.call = state.call) ∨
    ∃ owner namespaceName links, state.call = .rival owner namespaceName links

/-- The layer is not seen from outside, even where only rivals may come and go. -/
def CoversFaultsByRivals (b : Backend σ) (s : System σ) : Prop :=
  ∀ (task : Nat) (call : Call) (r : Request)
    (next : r.Reply → Program (Except OperationError call.Answer)),
    s.tasks[task]? = some ⟨call, .ask r next⟩ →
    ∀ (f : Faults) (rivalLink : Nat → Link), (∀ n, (rivalLink n).body.Fits) →
      ∃ t, Reaches b s t (Faults.backend b rivalLink r (s.store, f)).2.1 task
        ⟨call, next (Faults.backend b rivalLink r (s.store, f)).1⟩ ∧ AddsRivals s t

lemma AddsRivals.refl (s : System σ) : AddsRivals s s := fun state hstate => .inl ⟨state, hstate, rfl⟩

lemma AddsRivals.trans {s t u : System σ} (h : AddsRivals s t) (h' : AddsRivals t u) :
    AddsRivals s u := by
  intro state hstate
  rcases h' state hstate with ⟨old, hold, hcall⟩ | hrival
  · rw [← hcall]
    exact h old hold
  · exact .inr hrival

lemma addsRivals_replied {s : System σ} {store : σ} {task : Nat} {call : Call} {r : Request}
    {reply : r.Reply} {old rest : Program (Except OperationError call.Answer)}
    (turn : s.tasks[task]? = some ⟨call, old⟩) :
    AddsRivals s (s.replied store task call r reply rest) := by
  intro state hstate
  rcases List.mem_or_eq_of_mem_set hstate with hstate | rfl
  · exact .inl ⟨state, hstate, rfl⟩
  · exact .inl ⟨⟨call, old⟩, List.mem_of_getElem? turn, rfl⟩

lemma Reaches.trans {s t u : System σ} {store store' : σ} {task : Nat} {state state' : Task}
    (h : Reaches b s t store task state) (h' : Reaches b t u store' task state') :
    Reaches b s u store' task state' := by
  refine ⟨h.run.trans h'.run, h'.store, h'.own, ?_⟩
  intro i hi hne
  have ht := h.others i hi hne
  have hlt : i < t.tasks.length := by
    rw [List.getElem?_eq_getElem hi] at ht
    exact (List.getElem?_eq_some_iff.1 ht).1
  exact (h'.others i hlt hne).trans ht

lemma reaches_served {s : System σ} {task : Nat} {call : Call} {r : Request}
    {next : r.Reply → Program (Except OperationError call.Answer)}
    (turn : s.tasks[task]? = some ⟨call, .ask r next⟩) :
    ∃ t, Reaches b s t (b r s.store).2 task ⟨call, next (b r s.store).1⟩ ∧ AddsRivals s t := by
  have hlt : task < s.tasks.length := (List.getElem?_eq_some_iff.1 turn).1
  refine ⟨_, ⟨.single (.serve turn), rfl, ?_, ?_⟩, addsRivals_replied turn⟩
  · simp [replied, hlt]
  · intro i _ hi
    simp [replied, Ne.symm hi]

lemma reaches_refused {s : System σ} {task : Nat} {call : Call} {r : Request}
    {next : r.Reply → Program (Except OperationError call.Answer)}
    (turn : s.tasks[task]? = some ⟨call, .ask r next⟩) (e : StoreError) :
    ∃ t, Reaches b s t s.store task ⟨call, next (.error e)⟩ ∧ AddsRivals s t := by
  have hlt : task < s.tasks.length := (List.getElem?_eq_some_iff.1 turn).1
  refine ⟨_, ⟨.single (.refuse turn e), rfl, ?_, ?_⟩, addsRivals_replied turn⟩
  · simp [replied, hlt]
  · intro i _ hi
    simp [replied, Ne.symm hi]

lemma reaches_end {s : System σ} {task : Nat} {call : Call}
    {p : Program (Except OperationError call.Answer)} (turn : s.tasks[task]? = some ⟨call, p⟩) :
    ∃ t, Reaches b s t (p.run b s.store).2 task ⟨call, .done (p.run b s.store).1⟩ ∧
      AddsRivals s t := by
  induction p generalizing s with
  | done a => exact ⟨s, ⟨.refl, rfl, turn, fun _ _ _ => rfl⟩, .refl s⟩
  | ask r next ih =>
    obtain ⟨t, ht, hcalls⟩ := reaches_served (b := b) turn
    obtain ⟨u, hu, hcalls'⟩ := ih (b r s.store).1 ht.own
    rw [ht.store] at hu
    exact ⟨u, ht.trans hu, hcalls.trans hcalls'⟩

lemma reaches_after_rival {s : System σ} {task : Nat} {state : Task}
    (turn : s.tasks[task]? = some state) (owner : Address) (namespaceName : String)
    {links : List Link} (fits : Batch.Fits ⟨owner, namespaceName, links⟩) :
    ∃ t, Reaches b s t
      ((Access.appendOnce owner namespaceName links).run.run b s.store).2 task state ∧
      AddsRivals s t := by
  have hlt : task < s.tasks.length := (List.getElem?_eq_some_iff.1 turn).1
  have hrival : (s.called (.rival owner namespaceName links)).tasks[s.tasks.length]? =
      some ⟨_, (Call.rival owner namespaceName links).operation.program⟩ := by
    simp [called]
  obtain ⟨t, ⟨hrun, hstore, -, hothers⟩, hcalls⟩ := reaches_end (b := b) hrival
  have hcalled : ∀ i < s.tasks.length,
      (s.called (.rival owner namespaceName links)).tasks[i]? = s.tasks[i]? :=
    fun i hi => List.getElem?_append_left hi
  have hkept : ∀ i < s.tasks.length, t.tasks[i]? = s.tasks[i]? := fun i hi =>
    (hothers i (by simp only [called, List.length_append]; omega) (by omega)).trans (hcalled i hi)
  have hbegin : Step b s (s.called (.rival owner namespaceName links)) := by
    refine .begin _ fun w hw => ?_
    cases hw
    exact fits
  have hadds : AddsRivals s (s.called (.rival owner namespaceName links)) := by
    intro state hstate
    rcases List.mem_append.1 hstate with hstate | hstate
    · exact .inl ⟨state, hstate, rfl⟩
    · rw [List.mem_singleton.1 hstate]
      exact .inr ⟨owner, namespaceName, links, rfl⟩
  refine ⟨t, ⟨.head hbegin hrun, ?_, (hkept task hlt).trans turn, fun i hi _ => hkept i hi⟩,
    hadds.trans hcalls⟩
  rw [hstore]
  exact congrArg Prod.snd (Program.run_bind b _ _ s.store)

theorem covers_faults_by_rivals (b : Backend σ) (s : System σ) : CoversFaultsByRivals b s := by
  intro task call r next turn f rivalLink hfits
  obtain ⟨store, hstore, hreply⟩ := Faults.backend_cases b rivalLink r s.store f
  have hbefore : ∃ t, Reaches b s t store task ⟨call, .ask r next⟩ ∧ AddsRivals s t := by
    rcases hstore with rfl | ⟨owner, namespaceName, n, rfl⟩
    · exact ⟨s, ⟨.refl, rfl, turn, fun _ _ _ => rfl⟩, .refl s⟩
    · refine reaches_after_rival turn owner namespaceName ⟨(by decide : 1 < UInt64.size), ?_⟩
      exact List.forall_mem_singleton.2 (hfits n)
  obtain ⟨t, ht, hcalls⟩ := hbefore
  rcases hreply with ⟨e, f', hreply⟩ | ⟨f', hreply⟩
  · rw [hreply, ← ht.store]
    obtain ⟨u, hu, hcalls'⟩ := reaches_refused (b := b) ht.own e
    exact ⟨u, ht.trans hu, hcalls.trans hcalls'⟩
  · rw [hreply, ← ht.store]
    obtain ⟨u, hu, hcalls'⟩ := reaches_served (b := b) ht.own
    exact ⟨u, ht.trans hu, hcalls.trans hcalls'⟩

theorem covers_faults (b : Backend σ) (s : System σ) : CoversFaults b s := by
  intro task call r next turn f rivalLink hfits
  obtain ⟨t, ht, -⟩ := covers_faults_by_rivals b s task call r next turn f rivalLink hfits
  exact ⟨t, ht⟩

end System
end SignedNames
