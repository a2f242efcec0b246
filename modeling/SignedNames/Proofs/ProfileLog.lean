import Mathlib
import SignedNames.Proofs.IndexedChains
import SignedNames.Proofs.Store.Records

/-!
# The revisions of a profile

The swaps of a profile that landed follow one another like entries of a log: each is the edit of one
call, made to the record that the entries before have left. The edit of a call may run on several
records; the one that counts started from the record that its swap replaced, since a record is told
from all earlier ones by its revision.
-/
namespace SignedNames

structure Revision where
  task : Nat
  owner : Address
  profile : Profile

def Event.revision? : Event → Option Revision
  | ⟨task, .swapProfile owner _ next, .ok .swapped⟩ => some ⟨task, owner, next⟩
  | _ => none

namespace Event

lemma revision?_cases (e : Event) : e.revision? = none ∨ ∃ task owner expected next,
    e = ⟨task, .swapProfile owner expected next, .ok .swapped⟩ := by
  unfold revision?
  split
  · exact .inr ⟨_, _, _, _, rfl⟩
  · exact .inl rfl

lemma revision?_refused (task : Nat) (r : Request) (e : StoreError) :
    revision? ⟨task, r, .error e⟩ = none := by
  cases r <;> rfl

lemma revision?_spares {r : Request} (h : r.SparesProfiles) (task : Nat) (reply : r.Reply) :
    revision? ⟨task, r, reply⟩ = none := by
  cases r <;> first | rfl | exact h.elim

end Event

namespace Log

def byTask (log : List Event) (task : Nat) : List Event := log.filter fun e => e.task = task

def revisions (log : List Event) : List Revision := log.filterMap Event.revision?

def revisionsAt (log : List Event) (owner : Address) : List Revision :=
  (revisions log).filter fun r => r.owner = owner

def revisionsBy (log : List Event) (task : Nat) : List Revision :=
  (revisions log).filter fun r => r.task = task

/-- The records that the events leave: the newest profile of each owner, and how many there were. -/
def records (log : List Event) : Records := fun owner =>
  (revisionsAt log owner).getLast?.map fun r => ⟨r.profile, (revisionsAt log owner).length⟩

variable {log before after : List Event} {e : Event}

lemma revisions_append (log log' : List Event) :
    revisions (log ++ log') = revisions log ++ revisions log' := List.filterMap_append

lemma revisionsAt_append (log log' : List Event) (owner : Address) :
    revisionsAt (log ++ log') owner = revisionsAt log owner ++ revisionsAt log' owner := by
  rw [revisionsAt, revisions_append, List.filter_append, revisionsAt, revisionsAt]

lemma revisionsBy_append (log log' : List Event) (task : Nat) :
    revisionsBy (log ++ log') task = revisionsBy log task ++ revisionsBy log' task := by
  rw [revisionsBy, revisions_append, List.filter_append, revisionsBy, revisionsBy]

lemma byTask_append (log log' : List Event) (task : Nat) :
    byTask (log ++ log') task = byTask log task ++ byTask log' task := List.filter_append ..

lemma task_of_mem_revisions {r : Revision} (h : r ∈ revisions log) :
    ∃ e ∈ log, e.task = r.task := by
  obtain ⟨e, he, hr⟩ := List.mem_filterMap.1 h
  refine ⟨e, he, ?_⟩
  rcases e.revision?_cases with hnone | ⟨task, owner, expected, next, rfl⟩
  · rw [hnone] at hr
    cases hr
  · cases hr
    rfl

lemma revisionsBy_eq_nil {task : Nat} (h : ∀ e ∈ log, e.task ≠ task) :
    revisionsBy log task = [] := by
  refine List.filter_eq_nil_iff.2 fun r hr htask => ?_
  obtain ⟨e, he, heq⟩ := task_of_mem_revisions hr
  exact h e he (heq.trans (of_decide_eq_true htask))

lemma revisions_of_none (h : e.revision? = none) : revisions [e] = [] := by
  rw [revisions, List.filterMap_cons_none h, List.filterMap_nil]

lemma revisionsBy_append_of_none (h : e.revision? = none) (task : Nat) :
    revisionsBy (log ++ [e]) task = revisionsBy log task := by
  rw [revisionsBy_append, revisionsBy, revisionsBy, revisions_of_none h, List.filter_nil,
    List.append_nil]

lemma revisionsBy_append_of_ne {task : Nat} (h : e.task ≠ task) :
    revisionsBy (log ++ [e]) task = revisionsBy log task := by
  have hnil : revisionsBy [e] task = [] :=
    revisionsBy_eq_nil fun e' he' => by rwa [List.mem_singleton.1 he']
  rw [revisionsBy_append, hnil, List.append_nil]

lemma byTask_append_of_ne {task : Nat} (h : e.task ≠ task) :
    byTask (log ++ [e]) task = byTask log task := by
  rw [byTask_append, byTask, byTask, List.filter_cons_of_neg (by simpa using h), List.filter_nil,
    List.append_nil]

lemma byTask_append_self : byTask (log ++ [e]) e.task = byTask log e.task ++ [e] := by
  rw [byTask_append, byTask, byTask, List.filter_cons_of_pos (by simp), List.filter_nil]

lemma suffix_byTask_append {es : List Event} {task : Nat} (h : es <:+ byTask log task)
    (htask : e.task = task) : es ++ [e] <:+ byTask (log ++ [e]) task := by
  subst htask
  obtain ⟨front, hfront⟩ := h
  refine ⟨front, ?_⟩
  rw [byTask_append_self, ← hfront, List.append_assoc]

lemma records_append_of_none (h : e.revision? = none) : records (log ++ [e]) = records log := by
  funext owner
  have hnil : revisionsAt [e] owner = [] := by
    rw [revisionsAt, revisions_of_none h, List.filter_nil]
  rw [records, records, revisionsAt_append, hnil, List.append_nil]

lemma revisionOf_records (log : List Event) (owner : Address) :
    revisionOf (records log owner) = (revisionsAt log owner).length := by
  rw [records, revisionOf]
  cases hlast : (revisionsAt log owner).getLast? with
  | none => simp [List.getLast?_eq_none_iff.1 hlast]
  | some r => rfl

lemma records_append_swap (log : List Event) (task : Nat) (owner : Address) (expected : Option Nat)
    (next : Profile) :
    records (log ++ [⟨task, .swapProfile owner expected next, .ok .swapped⟩]) =
      Function.update (records log) owner
        (some ⟨next, revisionOf (records log owner) + 1⟩) := by
  have hnew (other : Address) :
      revisionsAt [⟨task, .swapProfile owner expected next, .ok .swapped⟩] other =
        if owner = other then [⟨task, owner, next⟩] else [] := by
    by_cases hother : owner = other <;>
      simp [revisionsAt, revisions, Event.revision?, hother]
  funext other
  rw [Function.update_apply, records, revisionsAt_append, hnew]
  by_cases hother : other = owner
  · subst hother
    simp [revisionOf_records]
  · rw [if_neg hother, if_neg (Ne.symm hother), List.append_nil, records]

/-- A record is told from all earlier ones by its revision. -/
lemma records_eq_of_revision {earlier : List Event} {owner : Address} (h : earlier <+: log)
    (hrevision : (records log owner).map (·.revision) = (records earlier owner).map (·.revision)) :
    records log owner = records earlier owner := by
  obtain ⟨later, rfl⟩ := h
  have hlength :
      (revisionsAt (earlier ++ later) owner).length = (revisionsAt earlier owner).length := by
    rw [← revisionOf_records, ← revisionOf_records, revisionOf, revisionOf, hrevision]
  have hnil : revisionsAt later owner = [] := by
    rw [revisionsAt_append, List.length_append] at hlength
    exact List.length_eq_zero_iff.1 (by omega)
  rw [records, records, revisionsAt_append, hnil, List.append_nil]

lemma append_singleton_eq {ev : Event} (h : log ++ [e] = before ++ ev :: after) :
    (before = log ∧ ev = e ∧ after = []) ∨
      ∃ after', after = after' ++ [e] ∧ log = before ++ ev :: after' := by
  rcases List.eq_nil_or_concat' after with rfl | ⟨after', last, rfl⟩
  · obtain ⟨rfl, hev⟩ := List.append_inj' h rfl
    exact .inl ⟨rfl, (List.singleton_inj.1 hev).symm, rfl⟩
  · rw [← List.cons_append, ← List.append_assoc] at h
    obtain ⟨rfl, hlast⟩ := List.append_inj' h rfl
    rw [List.singleton_inj.1 hlast]
    exact .inr ⟨after', rfl, rfl⟩

end Log

namespace Call

/-- What a call asks for on its way to a swap, with the replies: the record that it starts from, and
then the index of the namespace that it brings up to date, if there is one. -/
def round (c : Call) (task : Nat) (base : Option (Versioned Profile)) (found : Option NameIndex) :
    List Event :=
  ⟨task, .loadProfile c.owner, .ok base⟩ ::
    (c.refreshed.map fun name => (⟨task, .loadIndex c.owner name, .ok found⟩ : Event)).toList

def Preserves (admits : Profile → Prop) (c : Call) : Prop := ∀ q, admits q → admits (c.edit q)

end Call

namespace System

variable {σ : Type}

def call? (s : System σ) (task : Nat) : Option Call := (s.tasks[task]?).map (·.call)

lemma call?_of_task {s : System σ} {task : Nat} {t : Task} (h : s.tasks[task]? = some t) :
    s.call? task = some t.call := by
  rw [call?, h, Option.map_some]

lemma call?_replied {s : System σ} {store : σ} {task : Nat} {call : Call} {r : Request}
    {reply : r.Reply} {old rest : Program (Except OperationError call.Answer)}
    (turn : s.tasks[task]? = some ⟨call, old⟩) (i : Nat) :
    (s.replied store task call r reply rest).call? i = s.call? i := by
  by_cases hi : task = i
  · subst hi
    obtain ⟨hlt, hget⟩ := List.getElem?_eq_some_iff.1 turn
    simp [call?, replied, hlt, hget]
  · simp [call?, replied, hi]

lemma call?_called {s : System σ} {i : Nat} {c : Call} (h : s.call? i = some c) (new : Call) :
    (s.called new).call? i = some c := by
  obtain ⟨t, ht, hc⟩ := Option.map_eq_some_iff.1 h
  rw [call?, called, List.getElem?_append_left (List.getElem?_eq_some_iff.1 ht).1, ht]
  exact congrArg some hc

end System

/-- A swap puts the edit of its call in the place of the record that some events have left: the call
got that record, then this index if it brings a head up to date, and asked for nothing else before
the swap. -/
structure Call.Revised (c : Call) (before : List Event) (task : Nat) (expected : Option Nat)
    (next : Profile) (found : Option NameIndex) : Prop where
  expected : expected = (Log.records before c.owner).map (·.revision)
  next : next = c.edit ((profileOf (Log.records before c.owner)).withHead c.refreshed found)
  round : c.round task (Log.records before c.owner) found <:+ Log.byTask before task

/-- A record that was in place at some time, with a profile that a store admits. -/
structure Log.Past (admits : Profile → Prop) (log : List Event) (owner : Address)
    (base : Option (Versioned Profile)) : Prop where
  earlier : ∃ before, before <+: log ∧ base = records before owner
  admitted : admits (profileOf base)

def Progress.Holds (admits : Profile → Prop) (log : List Event) (task : Nat) (c : Call) :
    Progress → Prop
  | .apart => Log.revisionsBy log task = []
  | .loaded base => Log.revisionsBy log task = [] ∧ Log.Past admits log c.owner base ∧
    [⟨task, .loadProfile c.owner, .ok base⟩] <:+ Log.byTask log task
  | .ready base found => Log.revisionsBy log task = [] ∧ Log.Past admits log c.owner base ∧
    c.round task base found <:+ Log.byTask log task
  | .landed record => Log.revisionsBy log task = [⟨task, c.owner, record.value⟩] ∧
    ∃ before after expected,
      log = before ++ ⟨task, .swapProfile c.owner expected record.value, .ok .swapped⟩ :: after ∧
        Log.records (before ++
          [⟨task, .swapProfile c.owner expected record.value, .ok .swapped⟩]) c.owner = some record

/-- The invariant: the store holds the records that the log leaves, and every swap that landed is
the edit of its call. -/
structure Logged {σ : Type} (rep : σ → Records → Prop) (admits : Profile → Prop) (s : System σ) :
    Prop where
  records : rep s.store (Log.records s.events)
  admitted : ∀ owner, admits (profileOf (Log.records s.events owner))
  serial : ∀ before after task owner expected next,
    s.events = before ++ ⟨task, .swapProfile owner expected next, .ok .swapped⟩ :: after →
      ∃ c found, s.call? task = some c ∧ c.owner = owner ∧
        c.Revised before task expected next found
  tasks : ∀ i t, s.tasks[i]? = some t → t.call.Preserves admits ∧ ∃ progress : Progress,
    Revises t.call.owner t.call.refreshed t.call.edit t.call.Tells progress t.rest ∧
      progress.Holds admits s.events i t.call
  events : ∀ e ∈ s.events, e.task < s.tasks.length

section

variable {admits : Profile → Prop} {log : List Event} {e : Event} {owner : Address}
  {base : Option (Versioned Profile)} {task : Nat} {c : Call} {progress : Progress}

lemma Log.Past.append (h : Log.Past admits log owner base) (e : Event) :
    Log.Past admits (log ++ [e]) owner base := by
  obtain ⟨⟨before, hbefore, hbase⟩, hadmits⟩ := h
  exact ⟨⟨before, hbefore.trans (List.prefix_append ..), hbase⟩, hadmits⟩

lemma Progress.begun_holds (hby : Log.revisionsBy log task = [])
    (hpast : Log.Past admits log c.owner base)
    (hround : [⟨task, .loadProfile c.owner, .ok base⟩] <:+ Log.byTask log task) :
    (Progress.begun c.refreshed base).Holds admits log task c := by
  cases hrefreshed : c.refreshed with
  | none =>
    refine ⟨hby, hpast, ?_⟩
    rw [Call.round, hrefreshed]
    exact hround
  | some name => exact ⟨hby, hpast, hround⟩

lemma Progress.Holds.append_of_ne (h : progress.Holds admits log task c) (hne : e.task ≠ task) :
    progress.Holds admits (log ++ [e]) task c := by
  cases progress with
  | apart => exact (Log.revisionsBy_append_of_ne hne).trans h
  | loaded base =>
    obtain ⟨hby, hpast, hround⟩ := h
    exact ⟨(Log.revisionsBy_append_of_ne hne).trans hby, hpast.append e,
      (Log.byTask_append_of_ne hne).symm ▸ hround⟩
  | ready base found =>
    obtain ⟨hby, hpast, hround⟩ := h
    exact ⟨(Log.revisionsBy_append_of_ne hne).trans hby, hpast.append e,
      (Log.byTask_append_of_ne hne).symm ▸ hround⟩
  | landed record =>
    obtain ⟨hby, before, after, expected, rfl, hrecord⟩ := h
    refine ⟨(Log.revisionsBy_append_of_ne hne).trans hby, before, after ++ [e], expected, ?_,
      hrecord⟩
    rw [List.append_assoc, List.cons_append]

lemma Progress.Holds.revisionsBy_eq_nil {α : Type} {namespaceName : Option String}
    {edit : Profile → Profile} {tells : α → Option (Versioned Profile) → Prop} {r : Request}
    {next : r.Reply → Program α} (h : progress.Holds admits log task c)
    (hrevises : Revises owner namespaceName edit tells progress (.ask r next)) :
    Log.revisionsBy log task = [] := by
  cases hrevises with
  | other => exact h
  | load => exact h
  | refresh => exact h.1
  | swap => exact h.1

end

namespace Logged

variable {σ : Type} {b : Backend σ} {rep : σ → Records → Prop} {admits : Profile → Prop}
  {s t : System σ} {store : σ} {task : Nat} {call : Call} {r : Request} {reply : r.Reply}
  {old rest : Program (Except OperationError call.Answer)}

theorem replied (h : Logged rep admits s) (turn : s.tasks[task]? = some ⟨call, old⟩)
    (records : rep store (Log.records (s.events ++ [⟨task, r, reply⟩])))
    (admitted : ∀ owner, admits (profileOf (Log.records (s.events ++ [⟨task, r, reply⟩]) owner)))
    (serial : ∀ owner expected next,
      (⟨task, r, reply⟩ : Event) = ⟨task, .swapProfile owner expected next, .ok .swapped⟩ →
        call.owner = owner ∧ ∃ found, call.Revised s.events task expected next found)
    (own : ∃ progress : Progress,
      Revises call.owner call.refreshed call.edit call.Tells progress rest ∧
        progress.Holds admits (s.events ++ [⟨task, r, reply⟩]) task call) :
    Logged rep admits (s.replied store task call r reply rest) where
  records := records
  admitted := admitted
  serial before after task' owner expected next hsplit := by
    rw [System.call?_replied turn]
    rcases Log.append_singleton_eq hsplit with ⟨rfl, hevent, -⟩ | ⟨after', -, hevents⟩
    · have htask : task' = task := congrArg Event.task hevent
      subst htask
      obtain ⟨howner, found, hrevised⟩ := serial owner expected next hevent.symm
      exact ⟨call, found, System.call?_of_task turn, howner, hrevised⟩
    · exact h.serial before after' task' owner expected next hevents
  tasks i t ht := by
    by_cases hi : task = i
    · subst hi
      have hlt : task < s.tasks.length := (List.getElem?_eq_some_iff.1 turn).1
      have hset : t = ⟨call, rest⟩ := by simpa [System.replied, hlt] using ht.symm
      subst hset
      exact ⟨(h.tasks task _ turn).1, own⟩
    · have hold : s.tasks[i]? = some t := by simpa [System.replied, hi] using ht
      obtain ⟨preserves, progress, hrevises, hholds⟩ := h.tasks i t hold
      exact ⟨preserves, progress, hrevises, hholds.append_of_ne hi⟩
  events e he := by
    have hlt : task < s.tasks.length := (List.getElem?_eq_some_iff.1 turn).1
    have hlength : (s.replied store task call r reply rest).tasks.length = s.tasks.length :=
      List.length_set
    rw [hlength]
    rcases List.mem_append.1 he with he | he
    · exact h.events e he
    · rw [List.mem_singleton] at he
      exact he ▸ hlt

theorem unrevised (h : Logged rep admits s) (turn : s.tasks[task]? = some ⟨call, old⟩)
    (hnone : Event.revision? ⟨task, r, reply⟩ = none)
    (records : rep store (Log.records s.events))
    (own : ∃ progress : Progress,
      Revises call.owner call.refreshed call.edit call.Tells progress rest ∧
        progress.Holds admits (s.events ++ [⟨task, r, reply⟩]) task call) :
    Logged rep admits (s.replied store task call r reply rest) := by
  have hrecords : Log.records (s.events ++ [_]) = _ := Log.records_append_of_none hnone
  refine h.replied turn (hrecords ▸ records) (hrecords ▸ h.admitted) ?_ own
  intro owner expected next hevent
  rw [hevent] at hnone
  cases hnone

theorem called (h : Logged rep admits s) {c : Call} (preserves : c.Preserves admits) :
    Logged rep admits (s.called c) where
  records := h.records
  admitted := h.admitted
  serial before after task owner expected next hsplit := by
    obtain ⟨c', found, hcall, hrevised⟩ := h.serial before after task owner expected next hsplit
    exact ⟨c', found, System.call?_called hcall c, hrevised⟩
  tasks i t ht := by
    change (s.tasks ++ [_])[i]? = some t at ht
    rw [List.getElem?_append] at ht
    split at ht
    · exact h.tasks i t ht
    · have hmem := List.mem_of_getElem? ht
      rw [List.mem_singleton] at hmem
      subst hmem
      refine ⟨preserves, .apart, c.revises, Log.revisionsBy_eq_nil fun e he => ?_⟩
      have hlt : e.task < s.tasks.length := h.events e he
      omega
  events e he := by
    have hlt := h.events e he
    simp only [System.called, List.length_append, List.length_singleton]
    omega

theorem refused {next : r.Reply → Program (Except OperationError call.Answer)}
    (h : Logged rep admits s) (turn : s.tasks[task]? = some ⟨call, .ask r next⟩) (e : StoreError) :
    Logged rep admits (s.replied s.store task call r (.error e) (next (.error e))) := by
  obtain ⟨-, progress, hrevises, hholds⟩ := h.tasks task _ turn
  have hnone := Event.revision?_refused task r e
  refine h.unrevised turn hnone h.records ⟨.apart, hrevises.refused e, ?_⟩
  exact (Log.revisionsBy_append_of_none hnone task).trans (hholds.revisionsBy_eq_nil hrevises)

/-- A swap that lands adds a revision to the record that its call has started from. -/
theorem landed (h : Logged rep admits s) {profile : Profile} {found : Option NameIndex}
    {expected : Option Nat} (turn : s.tasks[task]? = some ⟨call, old⟩)
    (hby : Log.revisionsBy s.events task = []) (hadmits : admits profile)
    (hrevised : call.Revised s.events task expected profile found)
    (hstore : rep store (Function.update (Log.records s.events) call.owner
      (some ⟨profile, expected.getD 0 + 1⟩)))
    (hrest : Revises call.owner call.refreshed call.edit call.Tells
      (.landed ⟨profile, revisionOf (Log.records s.events call.owner) + 1⟩) rest) :
    Logged rep admits (s.replied store task call (.swapProfile call.owner expected profile)
      (.ok .swapped) rest) := by
  have hrecords := Log.records_append_swap s.events task call.owner expected profile
  have hexpected : expected.getD 0 = revisionOf (Log.records s.events call.owner) := by
    rw [hrevised.expected, revisionOf]
  refine h.replied turn ?_ ?_ ?_ ⟨_, hrest, ?_, s.events, [], expected, rfl, ?_⟩
  · rw [hrecords, ← hexpected]
    exact hstore
  · intro owner
    rw [hrecords, Function.update_apply]
    split
    · exact hadmits
    · exact h.admitted owner
  · intro owner expected' next' hevent
    cases hevent
    exact ⟨rfl, found, hrevised⟩
  · rw [Log.revisionsBy_append, hby]
    simp [Log.revisionsBy, Log.revisions, Event.revision?]
  · rw [hrecords, Function.update_self]

theorem served (keeps : b.KeepsRecords rep admits) (h : Logged rep admits s)
    {next : r.Reply → Program (Except OperationError call.Answer)}
    (turn : s.tasks[task]? = some ⟨call, .ask r next⟩) :
    Logged rep admits (s.replied (b r s.store).2 task call r (b r s.store).1
      (next (b r s.store).1)) := by
  obtain ⟨preserves, progress, hrevises, hholds⟩ : call.Preserves admits ∧ ∃ progress : Progress,
      Revises call.owner call.refreshed call.edit call.Tells progress (.ask r next) ∧
        progress.Holds admits s.events task call := h.tasks task _ turn
  have hby := hholds.revisionsBy_eq_nil hrevises
  cases hrevises with
  | other spares rest =>
    have hnone := Event.revision?_spares spares task (b r s.store).1
    refine h.unrevised turn hnone (keeps.spares h.records spares) ⟨.apart, rest _, ?_⟩
    exact (Log.revisionsBy_append_of_none hnone task).trans hby
  | load begun refused =>
    rw [keeps.load h.records]
    refine h.unrevised turn rfl h.records ⟨_, begun _, Progress.begun_holds ?_ ?_ ?_⟩
    · exact (Log.revisionsBy_append_of_none rfl task).trans hby
    · exact ⟨⟨s.events, List.prefix_append .., rfl⟩, h.admitted _⟩
    · exact Log.suffix_byTask_append (List.nil_suffix ..) rfl
  | @refresh name base next hname found refused =>
    have hstore := keeps.spares h.records (r := .loadIndex call.owner name) trivial
    obtain ⟨hby, hpast, hround⟩ := hholds
    generalize b (.loadIndex call.owner name) s.store = outcome at hstore ⊢
    obtain ⟨e | i, store⟩ := outcome
    · exact h.unrevised turn rfl hstore
        ⟨.apart, refused e, (Log.revisionsBy_append_of_none rfl task).trans hby⟩
    · refine h.unrevised turn rfl hstore ⟨.ready base i, found i, ?_, hpast.append _, ?_⟩
      · exact (Log.revisionsBy_append_of_none rfl task).trans hby
      · rw [Call.round, hname]
        exact Log.suffix_byTask_append hround rfl
  | @swap base found profile next hprofile swapped lost refused =>
    obtain ⟨hby, hpast, hround⟩ := hholds
    have hadmits : admits profile := by
      rw [hprofile]
      exact preserves _ (keeps.admits_withHead hpast.admitted _ _)
    obtain ⟨records', hswaps, hstore⟩ :=
      keeps.swap h.records call.owner (base.map (·.revision)) hadmits
    generalize b (.swapProfile call.owner (base.map (·.revision)) profile) s.store = outcome
      at hswaps hstore ⊢
    obtain ⟨reply, store⟩ := outcome
    cases hswaps with
    | landed hit =>
      -- No revision has come in between, or the swap would have been lost.
      obtain ⟨before, hbefore, rfl⟩ := hpast.earlier
      have hbase := Log.records_eq_of_revision hbefore hit
      rw [← hbase] at hprofile hround swapped hstore turn ⊢
      exact h.landed turn hby hadmits ⟨rfl, hprofile, hround⟩ hstore swapped
    | lost current =>
      exact h.unrevised turn rfl hstore
        ⟨.apart, lost current, (Log.revisionsBy_append_of_none rfl task).trans hby⟩
    | failed e =>
      exact h.unrevised turn rfl hstore
        ⟨.apart, refused e, (Log.revisionsBy_append_of_none rfl task).trans hby⟩

theorem start (keeps : b.KeepsRecords rep admits) {store : σ} (hstore : rep store fun _ => none) :
    Logged rep admits (System.start store) where
  records := hstore
  admitted _ := keeps.admits_empty
  serial before after task owner expected next hsplit := by
    cases List.append_eq_nil_iff.1 hsplit.symm |>.2
  tasks i t ht := by cases ht
  events _ he := absurd he List.not_mem_nil

theorem step (keeps : b.KeepsRecords rep admits) (h : Logged rep admits s)
    (hstep : System.Step b s t) (preserves : ∀ state ∈ t.tasks, state.call.Preserves admits) :
    Logged rep admits t := by
  cases hstep with
  | «begin» c fits =>
    have hmem : (⟨c, c.operation.program⟩ : Task) ∈ (s.called c).tasks :=
      List.mem_append_right _ (List.mem_singleton_self _)
    exact h.called (preserves _ hmem)
  | serve turn => exact h.served keeps turn
  | refuse turn e => exact h.refused turn e

theorem run (keeps : b.KeepsRecords rep admits) (h : Logged rep admits s) (hrun : System.Run b s t)
    (preserves : ∀ state ∈ t.tasks, state.call.Preserves admits) : Logged rep admits t := by
  induction hrun with
  | refl => exact h
  | tail _ hstep ih =>
    exact (ih (System.forall_call_of_step preserves hstep)).step keeps hstep preserves

lemma ended (h : Logged rep admits s) {outcome : Except OperationError call.Answer}
    (turn : s.tasks[task]? = some ⟨call, .done outcome⟩) :
    ∃ progress : Progress, call.Tells outcome progress.record? ∧
      progress.Holds admits s.events task call := by
  obtain ⟨-, progress, hrevises, hholds⟩ : call.Preserves admits ∧ ∃ progress : Progress,
      Revises call.owner call.refreshed call.edit call.Tells progress (.done outcome) ∧
        progress.Holds admits s.events task call := h.tasks task _ turn
  cases hrevises with
  | done htells => exact ⟨progress, htells, hholds⟩

/-- What is true of a profile from some time on, if every revision since then and everything that
happened in between keeps it true. -/
theorem profile_induction (h : Logged rep admits s) {P : List Event → Profile → Prop}
    {owner : Address} {before after : List Event} (hevents : before ++ after <+: s.events)
    (start : P before (profileOf (Log.records before owner)))
    (other : ∀ log e q, Log.revisionsAt [e] owner = [] → P log q → P (log ++ [e]) q)
    (revise : ∀ log (r : Revision) expected c q found, r ∈ Log.revisionsAt after owner →
      s.call? r.task = some c → c.owner = owner → r.profile = c.edit (q.withHead c.refreshed found) →
      P log q → P (log ++ [⟨r.task, .swapProfile owner expected r.profile, .ok .swapped⟩]) r.profile) :
    P (before ++ after) (profileOf (Log.records (before ++ after) owner)) := by
  induction after using List.reverseRecOn with
  | nil => rwa [List.append_nil]
  | append_singleton after e ih =>
    rw [← List.append_assoc] at hevents ⊢
    have hold := ih ((List.prefix_append ..).trans hevents) fun log r expected c q found hr =>
      revise log r expected c q found
        (by rw [Log.revisionsAt_append]; exact List.mem_append_left _ hr)
    rcases e.revision?_cases with hnone | ⟨task, owner', expected, next, rfl⟩
    · rw [Log.records_append_of_none hnone]
      refine other _ e _ ?_ hold
      rw [Log.revisionsAt, Log.revisions_of_none hnone, List.filter_nil]
    · rw [Log.records_append_swap, Function.update_apply]
      split
      · rename_i howner
        subst howner
        obtain ⟨later, hsplit⟩ := hevents
        rw [List.append_assoc _ [_], List.singleton_append] at hsplit
        obtain ⟨c, found, hcall, rfl, hrevised⟩ :=
          h.serial (before ++ after) later task owner expected next hsplit.symm
        have hlands : (⟨task, c.owner, next⟩ : Revision) ∈ Log.revisionsAt
            (after ++ [⟨task, .swapProfile c.owner expected next, .ok .swapped⟩]) c.owner := by
          rw [Log.revisionsAt_append]
          exact List.mem_append_right _ (by simp [Log.revisionsAt, Log.revisions, Event.revision?])
        exact revise _ ⟨task, c.owner, next⟩ expected c _ found hlands hcall rfl hrevised.next hold
      · rename_i howner
        refine other _ _ _ ?_ hold
        simp [Log.revisionsAt, Log.revisions, Event.revision?, Ne.symm howner]

end Logged

lemma Progress.Holds.revisionsBy_eq {admits : Profile → Prop} {log : List Event} {task : Nat}
    {c : Call} {progress : Progress} (h : progress.Holds admits log task c) :
    Log.revisionsBy log task =
      (progress.record?.map fun record => ⟨task, c.owner, record.value⟩).toList := by
  cases progress with
  | apart => exact h
  | loaded base => exact h.1
  | ready base found => exact h.1
  | landed record => exact h.1

def Call.OnlyEdits : Call → Prop
  | syncProfile .. => True
  | registerKey .. => True
  | updateProfile .. => True
  | _ => False

lemma Call.isSome_of_tells {c : Call} (h : c.OnlyEdits) {outcome : Except OperationError c.Answer}
    {landed : Option (Versioned Profile)} (htells : c.Tells outcome landed) :
    landed.isSome = outcome.toOption.isSome := by
  cases c with
  | syncProfile => exact htells
  | registerKey => exact htells
  | updateProfile =>
    have hlanded : landed = outcome.toOption.map (·.profile) := htells
    rw [hlanded, Option.isSome_map]
  | _ => exact h.elim

/-- What is true of a system in which the profile of every owner is edited by one call after the
other, and no edit is lost. -/
structure EditsSerially (s : System Memory) : Prop where
  /-- The revision in the store is the number of swaps that landed, its profile the last of them. -/
  stored : ∀ owner, s.store.profiles.get? owner = Log.records s.events owner
  /-- Every swap that landed is the edit of its call, made to the record that was in place. -/
  serial : ∀ before after task owner expected next,
    s.events = before ++ ⟨task, .swapProfile owner expected next, .ok .swapped⟩ :: after →
      ∃ c found, s.call? task = some c ∧ c.owner = owner ∧
        c.Revised before task expected next found
  /-- A call that has succeeded has landed one swap. -/
  succeeded : ∀ (task : Nat) c answer, s.tasks[task]? = some ⟨c, .done (.ok answer)⟩ →
    c.OnlyEdits → ∃ profile, Log.revisionsBy s.events task = [⟨task, c.owner, profile⟩]
  /-- A call that has failed has landed none. -/
  failed : ∀ (task : Nat) c e, s.tasks[task]? = some ⟨c, .done (.error e)⟩ → c.OnlyEdits →
    Log.revisionsBy s.events task = []
  /-- An update answers the profile that its swap has put in place, with the revision it got. -/
  answered : ∀ (task : Nat) p edit edited,
    s.tasks[task]? = some ⟨.updateProfile p edit, .done (.ok edited)⟩ →
      ∃ before after expected, s.events = before ++
          ⟨task, .swapProfile p.owner expected edited.profile.value, .ok .swapped⟩ :: after ∧
        Log.records (before ++
            [⟨task, .swapProfile p.owner expected edited.profile.value, .ok .swapped⟩]) p.owner =
          some edited.profile

/-- However calls are interleaved, whatever they make of profiles and whatever is refused, profiles
are edited serially. Requests that go through a layer of faults are such requests, with calls for
rivals besides. -/
theorem edits_serially_of_reachable {s : System Memory}
    (hrun : System.Run Memory.backend (.start .empty) s) :
    EditsSerially s ∧ s.CoversFaults Memory.backend := by
  have hlogged := (Logged.start Memory.keepsRecords rfl).run Memory.keepsRecords hrun
    fun _ _ _ _ => trivial
  refine ⟨⟨fun owner => congrFun hlogged.records owner, hlogged.serial, ?_, ?_, ?_⟩,
    System.covers_faults _ s⟩
  · intro task c answer turn honly
    obtain ⟨progress, htells, hholds⟩ := hlogged.ended turn
    have hsome := Call.isSome_of_tells honly htells
    obtain ⟨record, hrecord⟩ := Option.isSome_iff_exists.1 (hsome.trans rfl)
    rw [hholds.revisionsBy_eq, hrecord]
    exact ⟨record.value, rfl⟩
  · intro task c e turn honly
    obtain ⟨progress, htells, hholds⟩ := hlogged.ended turn
    have hsome := Call.isSome_of_tells honly htells
    have hnone : progress.record? = none :=
      Option.isNone_iff_eq_none.1 (Option.isSome_eq_false_iff.1 hsome)
    rw [hholds.revisionsBy_eq, hnone]
    rfl
  · intro task p edit edited turn
    obtain ⟨progress, htells, hholds⟩ := hlogged.ended turn
    have hlanded : progress.record? = some edited.profile := htells
    cases progress with
    | landed record =>
      cases hlanded
      exact hholds.2
    | _ => cases hlanded

/-- An update and a registration that both start from the empty profile; the registration loses the
race and is done over. -/
def editedSystem : System Memory :=
  (((System.start Memory.empty).called
      (.updateProfile samplePublisher fun q => { q with name := some "Größe" })).called
    (.registerKey samplePublisher 0 none)).schedule Memory.backend [0, 1, 0, 1, 1, 1]

lemma editedSystem_run : System.Run Memory.backend (.start .empty) editedSystem := by
  refine .head (.begin _ ?_) (.head (.begin _ ?_) (System.run_schedule ..))
  · nofun
  · nofun

theorem editedSystem_serial :
    System.Run Memory.backend (.start .empty) editedSystem ∧
      (Log.revisions editedSystem.events).map (·.task) = [0, 1] ∧
      (editedSystem.store.profiles.get? samplePublisher.owner).map (fun record =>
          (record.revision, record.value.name, (record.value.key? samplePublisher.owner).isSome)) =
        some (2, some "Größe", true) ∧
      EditsSerially editedSystem ∧ editedSystem.CoversFaults Memory.backend :=
  ⟨editedSystem_run, by decide +kernel, by decide +kernel,
    edits_serially_of_reachable editedSystem_run⟩

end SignedNames
