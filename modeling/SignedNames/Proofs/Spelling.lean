import Mathlib
import SignedNames.Proofs.Programs
import SignedNames.Reader
import SignedNames.Store.Memory
import SignedNames.Store.Rows

/-!
# Letter case does not matter

Two programs that are given names in different letter case ask a store for the same, and go on in
the same way with every reply. They lead to the same state and to the same result, but that an error
may repeat what it was given.
-/
namespace SignedNames

/-- An argument that an error may repeat. -/
inductive Argument
  | namespaceName
  | name
  | fingerprint

/-- The error with another spelling of an argument, if it repeats that. -/
def OperationError.respell : Argument → String → OperationError → OperationError
  | .namespaceName, spelling, .appendConflicts _ attempts => .appendConflicts spelling attempts
  | .namespaceName, spelling, .namespaceNotFound _ => .namespaceNotFound spelling
  | .name, spelling, .corruptChain (.entryWithoutName _ chunk) =>
    .corruptChain (.entryWithoutName spelling chunk)
  | .fingerprint, spelling, .misuse (.unknownFingerprint _) =>
    .misuse (.unknownFingerprint spelling)
  | _, _, e => e

namespace Program

/-- The second program asks for the same as the first but for the letter case of namespaces, and
its result is made of the first one's. -/
inductive Respells {α β : Type} (f : α → β) : Program α → Program β → Prop
  | done {result : α} {result' : β} (h : f result = result') :
    Respells f (.done result) (.done result')
  | same {r : Request} {next : r.Reply → Program α} {next' : r.Reply → Program β}
    (rest : ∀ reply, Respells f (next reply) (next' reply)) :
    Respells f (.ask r next) (.ask r next')
  | loadIndex {owner : Address} {x y : String} (hcase : Text.lower x = Text.lower y)
    {next : Except StoreError (Option NameIndex) → Program α}
    {next' : Except StoreError (Option NameIndex) → Program β}
    (rest : ∀ reply, Respells f (next reply) (next' reply)) :
    Respells f (.ask (.loadIndex owner x) next) (.ask (.loadIndex owner y) next')
  | swapIndex {owner : Address} {x y : String} (hcase : Text.lower x = Text.lower y)
    {expected : Option Cid} {i : NameIndex}
    {next : Except StoreError (Swap NameIndex) → Program α}
    {next' : Except StoreError (Swap NameIndex) → Program β}
    (rest : ∀ reply, Respells f (next reply) (next' reply)) :
    Respells f (.ask (.swapIndex owner x expected i) next)
      (.ask (.swapIndex owner y expected i) next')

end Program

/-- A store that replies to a namespace in any letter case, and keeps it the same way. -/
structure Backend.FoldsCase {σ : Type} (b : Backend σ) : Prop where
  loadIndex : ∀ {x y : String}, Text.lower x = Text.lower y → ∀ owner s,
    b (.loadIndex owner y) s = b (.loadIndex owner x) s
  swapIndex : ∀ {x y : String}, Text.lower x = Text.lower y → ∀ owner expected next s,
    b (.swapIndex owner y expected next) s = b (.swapIndex owner x expected next) s

theorem Memory.foldsCase : backend.FoldsCase where
  loadIndex h owner m := by
    simp only [backend, index?, h]
  swapIndex {x y} h owner expected next m := by
    have hswap : m.swapIndex owner y expected next = m.swapIndex owner x expected next := by
      rw [swapIndex, swapIndex, index?, index?, h]
    simp only [backend, hswap]

theorem Rows.foldsCase : backend.FoldsCase where
  loadIndex h owner r := by
    simp only [backend, readIndex, indexKey, h]
  swapIndex {x y} h owner expected next r := by
    have hswap : r.swapIndex owner y expected next = r.swapIndex owner x expected next := by
      rw [swapIndex, swapIndex, readIndex, readIndex, indexKey, indexKey, h]
    exact hswap

namespace Program.Respells

variable {α β γ δ : Type} {f : α → β} {p : Program α} {p' : Program β}

theorem run {σ : Type} {b : Backend σ} (folds : b.FoldsCase) (h : Respells f p p') (s : σ) :
    p'.run b s = (f (p.run b s).1, (p.run b s).2) := by
  induction h generalizing s with
  | done h => rw [Program.run, Program.run, h]
  | same _ ih => exact ih _ _
  | loadIndex hcase _ ih =>
    rw [Program.run, Program.run, folds.loadIndex hcase]
    exact ih _ _
  | swapIndex hcase _ ih =>
    rw [Program.run, Program.run, folds.swapIndex hcase]
    exact ih _ _

theorem bind (h : Respells f p p') {g : γ → δ} {q : α → Program γ} {q' : β → Program δ}
    (hq : ∀ a, Respells g (q a) (q' (f a))) : Respells g (p.bind q) (p'.bind q') := by
  induction h with
  | done h => exact h ▸ hq _
  | same _ ih => exact .same ih
  | loadIndex hcase _ ih => exact .loadIndex hcase ih
  | swapIndex hcase _ ih => exact .swapIndex hcase ih

theorem self {f : α → α} (h : p.Ends fun result => f result = result) : Respells f p p := by
  induction p with
  | done result => exact .done h
  | ask r next ih => exact .same fun reply => ih reply (h reply)

end Program.Respells

namespace Operation

/-- The second operation goes as the first with names in another letter case, and fails with what is
made of the first one's error. -/
def Respells {α : Type} (f : OperationError → OperationError) (o o' : Operation α) : Prop :=
  Program.Respells (Except.mapError f) o.program o'.program

namespace Respells

variable {α β : Type} {f : OperationError → OperationError} {o o' : Operation α}

lemma pure (a : α) : Respells f (Pure.pure a : Operation α) (Pure.pure a) :=
  Program.Respells.done rfl

lemma fail {e e' : OperationError} (h : f e = e') :
    Respells f (Operation.fail e : Operation α) (Operation.fail e') :=
  Program.Respells.done (congrArg Except.error h)

theorem bind (h : Respells f o o') {g g' : α → Operation β}
    (hg : ∀ a, Respells f (g a) (g' a)) : Respells f (o >>= g) (o' >>= g') := by
  rw [Respells, program_bind, program_bind]
  refine Program.Respells.bind h fun outcome => ?_
  cases outcome with
  | error e => exact .done rfl
  | ok a => exact hg a

theorem map (h : Respells f o o') (g : α → β) : Respells f (g <$> o) (g <$> o') := by
  rw [Respells, program_map, program_map]
  refine Program.Respells.bind h fun outcome => ?_
  cases outcome with
  | error e => exact .done rfl
  | ok a => exact .done rfl

lemma attempt (h : Respells id o o') : Respells f o.attempt o'.attempt := by
  refine Program.Respells.bind h fun outcome => .done ?_
  cases outcome <;> rfl

lemma check (hdata : ∀ cause, f (.data cause) = .data cause) (outcome : Except DataError α) :
    Respells f (Operation.check outcome) (Operation.check outcome) := by
  refine .self ?_
  cases outcome with
  | error e => exact congrArg Except.error (hdata e)
  | ok a => rfl

section

variable (hstore : ∀ cause, f (.store cause) = .store cause)
include hstore

lemma store {reply : Except StoreError α} :
    (reply.mapError OperationError.store).mapError f = reply.mapError .store := by
  cases reply with
  | error e => exact congrArg Except.error (hstore e)
  | ok a => rfl

lemma access (a : Access α) : Respells f (Operation.access a) (Operation.access a) :=
  .self ((Program.ends_of_forall (fun _ => trivial) _).bind fun _ _ => store hstore)

lemma ask (r : Request) : Respells f (Operation.ask r) (Operation.ask r) := access hstore _

lemma done_store {reply : Except StoreError α} :
    Program.Respells (Except.mapError f) (.done (reply.mapError .store))
      (.done (reply.mapError .store)) := .self (store hstore)

lemma loadIndex {x y : String} (hcase : Text.lower x = Text.lower y) (owner : Address) :
    Respells f (Operation.ask (.loadIndex owner x)) (Operation.ask (.loadIndex owner y)) :=
  Program.Respells.loadIndex hcase fun _ => done_store hstore

lemma swapIndex {x y : String} (hcase : Text.lower x = Text.lower y) (owner : Address)
    (expected : Option Cid) (next : NameIndex) :
    Respells f (Operation.ask (.swapIndex owner x expected next))
      (Operation.ask (.swapIndex owner y expected next)) :=
  Program.Respells.swapIndex hcase fun _ => done_store hstore

end
end Respells
end Operation

section

variable {x y : String} (hcase : Text.lower x = Text.lower y)
include hcase

lemma Link.hasName_congr (l : Link) : l.HasName y ↔ l.HasName x := by
  rw [HasName, HasName, hcase]

lemma Chunk.latest?_congr (c : Chunk) : c.latest? y = c.latest? x := by
  rw [latest?, latest?]
  simp only [Link.hasName_congr hcase]

lemma NameIndex.lookup_congr (i : NameIndex) : i.lookup y = i.lookup x := by
  rw [lookup, lookup, hcase]

lemma Profile.head?_congr (q : Profile) : q.head? y = q.head? x := by
  rw [head?, head?, hcase]

lemma Profile.setHead_congr (q : Profile) (head : Cid) : q.setHead y head = q.setHead x head := by
  rw [setHead, setHead, hcase]

lemma Profile.revoke?_congr (q : Profile) (time : UInt64) :
    q.revoke? y time = q.revoke? x time := by
  rw [revoke?, revoke?, hcase]

end

namespace Publisher

open Operation (Respells)

variable (p : Publisher) {f : OperationError → OperationError}
  (hstore : ∀ cause, f (.store cause) = .store cause)
  (hconflicts : ∀ attempts, f (.profileConflicts attempts) = .profileConflicts attempts)
include hstore

lemma refresh_respells (q : Profile) {refreshed refreshed' : Option String}
    (hcase : refreshed.map Text.lower = refreshed'.map Text.lower) :
    Respells f (p.refresh q refreshed) (p.refresh q refreshed') := by
  cases refreshed with
  | none =>
    cases refreshed' with
    | none => exact .pure q
    | some y => cases hcase
  | some x =>
    cases refreshed' with
    | none => cases hcase
    | some y =>
      have hcase := Option.some.inj hcase
      refine .bind (.loadIndex hstore hcase p.owner) fun found => ?_
      cases found with
      | none => exact .pure q
      | some i =>
        change Respells f (pure (q.setHead x i.head)) (pure (q.setHead y i.head))
        rw [Profile.setHead_congr hcase]
        exact .pure _

include hconflicts

theorem editProfileTimes_respells {β : Type} {refreshed refreshed' : Option String}
    (hcase : refreshed.map Text.lower = refreshed'.map Text.lower) (edit : Profile → Profile × β)
    (attempts : Nat) :
    Respells f (p.editProfileTimes refreshed edit attempts)
      (p.editProfileTimes refreshed' edit attempts) := by
  induction attempts with
  | zero => exact .fail (hconflicts _)
  | succ attempts ih =>
    refine .bind (.ask hstore _) fun current => ?_
    refine .bind (p.refresh_respells hstore _ hcase) fun q => ?_
    refine .bind (.ask hstore _) fun outcome => ?_
    cases outcome with
    | swapped => exact .pure _
    | conflict => exact ih

omit hstore hconflicts

variable {x y : String} (hcase : Text.lower x = Text.lower y)
include hcase

theorem syncProfile_respells : Respells id (p.syncProfile x) (p.syncProfile y) := by
  have hrefreshed : (some x).map Text.lower = (some y).map Text.lower := congrArg some hcase
  exact .map (p.editProfileTimes_respells (fun _ => rfl) (fun _ => rfl) hrefreshed _ _) _

theorem appendTimes_respells (links : List Link) (attempts : Nat) (observed : Option NameIndex) :
    Respells (.respell .namespaceName y) (p.appendTimes x links attempts observed)
      (p.appendTimes y links attempts observed) := by
  induction attempts generalizing observed with
  | zero => exact .fail rfl
  | succ attempts ih =>
    refine .bind (.access (fun _ => rfl) _) fun cid => ?_
    refine .bind (.swapIndex (fun _ => rfl) hcase p.owner _ _) fun outcome => ?_
    cases outcome with
    | swapped => exact .bind (.attempt (p.syncProfile_respells hcase)) fun synced => .pure _
    | conflict current => exact ih current

theorem append_respells (links : List Link) :
    Respells (.respell .namespaceName y) (p.append x links) (p.append y links) := by
  rw [append, append]
  split
  · exact .fail rfl
  · refine .bind (.check (fun _ => rfl) _) fun _ => ?_
    refine .bind (.loadIndex (fun _ => rfl) hcase p.owner) fun observed => ?_
    exact p.appendTimes_respells hcase links _ observed

theorem publish_respells (d : LinkDraft) (time : UInt64) (nonce : Nonce) :
    Respells (.respell .namespaceName y) (p.publish x d time nonce) (p.publish y d time nonce) := by
  refine .bind (.check (fun _ => rfl) _) fun link => ?_
  exact .bind (p.append_respells hcase [link]) fun receipt => .pure _

theorem revokeKey_respells (time : UInt64) :
    Respells (.respell .fingerprint y) (p.revokeKey x time) (p.revokeKey y time) := by
  rw [revokeKey, revokeKey]
  simp only [Profile.revoke?_congr hcase]
  refine .bind (p.editProfileTimes_respells (fun _ => rfl) (fun _ => rfl) rfl _ _) fun edited => ?_
  split
  · exact .pure ()
  · exact .fail rfl

end Publisher

namespace Reader

open Operation (Respells)

variable {x y : String}

theorem walk_respells {α β : Type} (limit : Nat) (take : α → Chunk → α ⊕ β) (finish : α → β)
    (remaining : Nat) (seen : List Cid) (state : α) (next : Option Cid) :
    Respells (.respell .namespaceName y) (walk limit take finish remaining seen state next)
      (walk limit take finish remaining seen state next) := by
  induction remaining generalizing seen state next with
  | zero =>
    rw [walk.eq_def]
    split
    · exact .pure _
    · split
      · exact .fail rfl
      · exact .fail rfl
  | succ remaining ih =>
    cases next with
    | none => exact .pure _
    | some cid =>
      rw [walk]
      split
      · exact .fail rfl
      · refine .bind (.access (fun _ => rfl) _) fun c => ?_
        cases take state c with
        | inl state => exact ih ..
        | inr result => exact .pure _

theorem index_respells {f : OperationError → OperationError}
    (hstore : ∀ cause, f (.store cause) = .store cause)
    (hmissing : f (.namespaceNotFound x) = .namespaceNotFound y)
    (hcase : Text.lower x = Text.lower y) (owner : Address) :
    Respells f (index owner x) (index owner y) := by
  refine .bind (.loadIndex hstore hcase owner) fun found => ?_
  cases found with
  | none => exact .fail hmissing
  | some i => exact .pure i

theorem resolve_respells {f : OperationError → OperationError} {name name' : String}
    (hstore : ∀ cause, f (.store cause) = .store cause)
    (hmissing : f (.namespaceNotFound x) = .namespaceNotFound y)
    (hcorrupt : ∀ cid, f (.corruptChain (.entryWithoutName name cid)) =
      .corruptChain (.entryWithoutName name' cid))
    (hcase : Text.lower x = Text.lower y) (hname : Text.lower name = Text.lower name')
    (owner : Address) : Respells f (resolve owner x name) (resolve owner y name') := by
  refine .bind (index_respells hstore hmissing hcase owner) fun i => ?_
  rw [i.lookup_congr hname]
  cases i.lookup name with
  | none => exact .pure none
  | some cid =>
    refine .bind (.access hstore _) fun c => ?_
    rw [c.latest?_congr hname]
    cases c.latest? name with
    | none => exact .fail (hcorrupt cid)
    | some link => exact .pure _

section

variable (hcase : Text.lower x = Text.lower y) (owner : Address)
include hcase

theorem links_respells (limit : Nat) :
    Respells (.respell .namespaceName y) (links limit owner x) (links limit owner y) :=
  .bind (index_respells (fun _ => rfl) rfl hcase owner) fun _ => walk_respells ..

theorem history_respells (limit : Nat) (name : String) :
    Respells (.respell .namespaceName y) (history limit owner x name)
      (history limit owner y name) :=
  .bind (links_respells hcase owner limit) fun _ => .pure _

theorem audit_respells (limit : Nat) :
    Respells (.respell .namespaceName y) (audit limit owner x) (audit limit owner y) := by
  refine .bind (.bind (.ask (fun _ => rfl) _) fun _ => .pure _) fun found => ?_
  exact .bind (links_respells hcase owner limit) fun _ => .pure _

omit owner

theorem resolveInProfile_respells (limit : Nat) (q : Profile) (name : String) :
    Respells (.respell .namespaceName y) (resolveInProfile limit q x name)
      (resolveInProfile limit q y name) := by
  rw [resolveInProfile, resolveInProfile, q.head?_congr hcase]
  cases q.head? x with
  | none => exact .fail rfl
  | some head => exact walk_respells ..

lemma resolveInProfile_congr (limit : Nat) (q : Profile) (namespaceName : String) :
    resolveInProfile limit q namespaceName y = resolveInProfile limit q namespaceName x := by
  rw [resolveInProfile, resolveInProfile]
  simp only [Chunk.latest?_congr hcase]

lemma history_congr (limit : Nat) (owner : Address) (namespaceName : String) :
    history limit owner namespaceName y = history limit owner namespaceName x := by
  rw [history, history]
  simp only [Link.hasName_congr hcase]

end
end Reader
/-- The same answer and the same state, but that an error repeats another spelling. -/
def respelled {α τ : Type} (a : Argument) (spelling : String)
    (outcome : Except OperationError α × τ) : Except OperationError α × τ :=
  (outcome.1.mapError (.respell a spelling), outcome.2)

/-- Two spellings are as good as each other wherever a namespace, a name or a fingerprint is asked
for. -/
structure IgnoresCase {σ : Type} (b : Backend σ) (x y : String) : Prop where
  loadIndex : ∀ owner s, b (.loadIndex owner y) s = b (.loadIndex owner x) s
  swapIndex : ∀ owner expected next s,
    b (.swapIndex owner y expected next) s = b (.swapIndex owner x expected next) s
  append : ∀ (p : Publisher) links s, (p.append y links).run b s =
    respelled .namespaceName y ((p.append x links).run b s)
  publish : ∀ (p : Publisher) d time nonce s, (p.publish y d time nonce).run b s =
    respelled .namespaceName y ((p.publish x d time nonce).run b s)
  syncProfile : ∀ (p : Publisher) s, (p.syncProfile y).run b s = (p.syncProfile x).run b s
  index : ∀ owner s, (Reader.index owner y).run b s =
    respelled .namespaceName y ((Reader.index owner x).run b s)
  resolve : ∀ owner name s, (Reader.resolve owner y name).run b s =
    respelled .namespaceName y ((Reader.resolve owner x name).run b s)
  resolveInProfile : ∀ limit q name s, (Reader.resolveInProfile limit q y name).run b s =
    respelled .namespaceName y ((Reader.resolveInProfile limit q x name).run b s)
  links : ∀ limit owner s, (Reader.links limit owner y).run b s =
    respelled .namespaceName y ((Reader.links limit owner x).run b s)
  history : ∀ limit owner name s, (Reader.history limit owner y name).run b s =
    respelled .namespaceName y ((Reader.history limit owner x name).run b s)
  verifyNamespace : ∀ settings owner s c, Reader.verifyNamespace settings b owner y s c =
    respelled .namespaceName y (Reader.verifyNamespace settings b owner x s c)
  resolveName : ∀ owner namespaceName s, (Reader.resolve owner namespaceName y).run b s =
    respelled .name y ((Reader.resolve owner namespaceName x).run b s)
  resolveNameInProfile : ∀ limit q namespaceName s,
    (Reader.resolveInProfile limit q namespaceName y).run b s =
      (Reader.resolveInProfile limit q namespaceName x).run b s
  historyOfName : ∀ limit owner namespaceName s,
    (Reader.history limit owner namespaceName y).run b s =
      (Reader.history limit owner namespaceName x).run b s
  revokeKey : ∀ (p : Publisher) time s, (p.revokeKey y time).run b s =
    respelled .fingerprint y ((p.revokeKey x time).run b s)

section

variable {σ : Type} {b : Backend σ} {x y : String}

lemma Operation.Respells.run {α : Type} {o o' : Operation α} {a : Argument} (folds : b.FoldsCase)
    (h : Respells (.respell a y) o o') (s : σ) : o'.run b s = respelled a y (o.run b s) :=
  Program.Respells.run folds h s

lemma Reader.verifyNamespace_respelled (folds : b.FoldsCase)
    (hcase : Text.lower x = Text.lower y) (settings : ReaderSettings) (owner : Address) (s : σ)
    (c : Chain) : verifyNamespace settings b owner y s c =
      respelled .namespaceName y (verifyNamespace settings b owner x s c) := by
  rw [verifyNamespace, verifyNamespace, (audit_respells hcase owner _).run folds]
  obtain ⟨e | ⟨q, links⟩, s⟩ := (audit settings.maxChainWalk owner x).run b s
  · rfl
  · dsimp only [respelled, Except.mapError]
    obtain ⟨e | entries, c⟩ := Verifier.verifyAll settings.requireRegisteredKey c q links
    · rfl
    · rfl

theorem Backend.FoldsCase.ignoresCase (folds : b.FoldsCase) (hcase : Text.lower x = Text.lower y) :
    IgnoresCase b x y where
  loadIndex := folds.loadIndex hcase
  swapIndex := folds.swapIndex hcase
  append p links := (p.append_respells hcase links).run folds
  publish p d time nonce := (p.publish_respells hcase d time nonce).run folds
  syncProfile p s := by
    refine (Program.Respells.run folds (p.syncProfile_respells hcase) s).trans ?_
    change (Except.mapError id ((p.syncProfile x).run b s).1, ((p.syncProfile x).run b s).2) = _
    obtain ⟨_ | _, _⟩ := (p.syncProfile x).run b s
    · rfl
    · rfl
  index owner := (Reader.index_respells (fun _ => rfl) rfl hcase owner).run folds
  resolve owner name :=
    (Reader.resolve_respells (fun _ => rfl) rfl (fun _ => rfl) hcase rfl owner).run folds
  resolveInProfile limit q name := (Reader.resolveInProfile_respells hcase limit q name).run folds
  links limit owner := (Reader.links_respells hcase owner limit).run folds
  history limit owner name := (Reader.history_respells hcase owner limit name).run folds
  verifyNamespace := Reader.verifyNamespace_respelled folds hcase
  resolveName owner namespaceName :=
    (Reader.resolve_respells (fun _ => rfl) rfl (fun _ => rfl) rfl hcase owner).run folds
  resolveNameInProfile limit q namespaceName s := by
    rw [Reader.resolveInProfile_congr hcase]
  historyOfName limit owner namespaceName s := by rw [Reader.history_congr hcase]
  revokeKey p time := (p.revokeKey_respells hcase time).run folds

end

/-- Names that are equal in lower case may be given for each other, to a store in memory and to one
of rows, in any state: the answer and the state that is left are the same. -/
theorem letter_case_ignored {x y : String} (hcase : Text.lower x = Text.lower y) :
    IgnoresCase Memory.backend x y ∧ IgnoresCase Rows.backend x y ∧
      (∀ c : Chunk, c.latest? y = c.latest? x) ∧ (∀ l : Link, l.HasName y ↔ l.HasName x) ∧
      (∀ i : NameIndex, i.lookup y = i.lookup x) ∧
      ∀ (q : Profile) (time : UInt64), q.revoke? y time = q.revoke? x time :=
  ⟨Memory.foldsCase.ignoresCase hcase, Rows.foldsCase.ignoresCase hcase, Chunk.latest?_congr hcase,
    Link.hasName_congr hcase, NameIndex.lookup_congr hcase, Profile.revoke?_congr hcase⟩

/-- In lower case a sigma is written as another letter at the end of a word. An error repeats the
spelling that was given. -/
theorem sigma_case_ignored :
    Text.lower "ΣΑΣ" = Text.lower "σας" ∧ IgnoresCase Memory.backend "ΣΑΣ" "σας" ∧
      IgnoresCase Rows.backend "ΣΑΣ" "σας" ∧
      ∀ owner : Address,
        (Reader.index owner "σας").run Rows.backend .fresh =
          (.error (.namespaceNotFound "σας"), .fresh) := by
  have hcase : Text.lower "ΣΑΣ" = Text.lower "σας" := by decide +kernel
  obtain ⟨inMemory, inRows, -⟩ := letter_case_ignored hcase
  refine ⟨hcase, inMemory, inRows, fun owner => ?_⟩
  have hcapitals : (Reader.index owner "ΣΑΣ").run Rows.backend .fresh =
      (.error (.namespaceNotFound "ΣΑΣ"), .fresh) := rfl
  rw [inRows.index, hcapitals]
  rfl

end SignedNames
