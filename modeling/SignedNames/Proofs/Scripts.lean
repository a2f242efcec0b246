import Mathlib
import SignedNames.Proofs.IndexedChains
import SignedNames.Proofs.Mirroring

/-!
# Scripts

A script makes one call after another, on a store, a publisher or a reader, and may close the store
and open it anew in between. A store in memory and a store of rows that begin without records give
the same answer to every call of a script.
-/
namespace SignedNames

/-- Indexes as the code makes them: read from a document, or put in front of another one. -/
inductive NameIndex.Made : NameIndex → Prop
  | parsed {s : String} {i : NameIndex} (h : NameIndex.parse s = .ok i) : Made i
  | advanced {previous : Option NameIndex} (h : ∀ i ∈ previous, Made i) (cid : Cid) (c : Chunk) :
    Made (.advance previous cid c)

/-- Profiles as the code makes them: read from a document without a floating-point number, and then
edited. Declared members hold no such number in any case. -/
inductive Profile.Made : Profile → Prop
  | parsed {s : String} {p : Profile} (h : Profile.parse s = .ok p)
    (hfloat : ∀ m ∈ p.extra.entries, m.2.FloatFree) : Made p
  | setHead {p : Profile} (h : Made p) (namespaceName : String) (head : Cid) :
    Made (p.setHead namespaceName head)
  | registered {p p' : Profile} (h : Made p) {k : SigningKey} {fingerprint : Address}
    (hregister : p.register k = .ok (fingerprint, p')) : Made p'
  | revoked {p p' : Profile} (h : Made p) {fingerprint : String} {time : UInt64}
    (hrevoke : p.revoke? fingerprint time = some p') : Made p'

theorem NameIndex.Made.normal {i : NameIndex} (h : i.Made) : i.Normal := by
  induction h with
  | parsed h => exact NameIndex.normal_of_parse h
  | advanced _ cid c ih => exact NameIndex.Normal.advance ih cid c

theorem Profile.Made.storable {p : Profile} (h : p.Made) : p.Storable := by
  induction h with
  | parsed h hfloat => exact Profile.storable_of_parse h hfloat
  | setHead _ namespaceName head ih => exact ih.setHead namespaceName head
  | registered _ hregister ih => exact ih.register hregister
  | revoked _ hrevoke ih => exact ih.revoke hrevoke

inductive Query
  | profile (owner : Address)
  | index (owner : Address) (namespaceName : String)
  | namespaces (owner : Address)
  | resolve (owner : Address) (namespaceName name : String)
  | resolveInProfile (limit : Nat) (p : Profile) (namespaceName name : String)
  | linksFrom (limit : Nat) (head : Cid)
  | links (limit : Nat) (owner : Address) (namespaceName : String)
  | history (limit : Nat) (owner : Address) (namespaceName name : String)

namespace Query

abbrev Answer : Query → Type
  | profile _ => Option Profile
  | index .. => NameIndex
  | namespaces _ => List String
  | resolve .. => Option Link
  | resolveInProfile .. => Option Link
  | linksFrom .. => List Link
  | links .. => List Link
  | history .. => List Link

def operation : (q : Query) → Operation q.Answer
  | profile owner => Reader.profile owner
  | index owner namespaceName => Reader.index owner namespaceName
  | namespaces owner => Reader.namespaces owner
  | resolve owner namespaceName name => Reader.resolve owner namespaceName name
  | resolveInProfile limit p namespaceName name =>
    Reader.resolveInProfile limit p namespaceName name
  | linksFrom limit head => Reader.linksFrom limit head
  | links limit owner namespaceName => Reader.links limit owner namespaceName
  | history limit owner namespaceName name => Reader.history limit owner namespaceName name

theorem onlyReads (q : Query) : q.operation.program.Asks Request.OnlyReads := by
  cases q with
  | profile owner => exact Reader.profile_onlyReads owner
  | index owner namespaceName => exact Reader.index_onlyReads owner namespaceName
  | namespaces owner => exact ⟨trivial, fun reply => trivial⟩
  | resolve owner namespaceName name => exact Reader.resolve_onlyReads owner namespaceName name
  | resolveInProfile limit p namespaceName name =>
    exact Reader.resolveInProfile_onlyReads limit p namespaceName name
  | linksFrom limit head => exact Reader.walk_onlyReads ..
  | links limit owner namespaceName => exact Reader.links_onlyReads limit owner namespaceName
  | history limit owner namespaceName name =>
    exact Reader.history_onlyReads limit owner namespaceName name

end Query

inductive Action
  | request (r : Request)
  | getChunk (cid : Cid)
  | call (c : Call)
  | query (q : Query)
  | verifyLink (settings : ReaderSettings) (profile : Profile) (link : Link)
  | verifyNamespace (settings : ReaderSettings) (owner : Address) (namespaceName : String)

namespace Action

abbrev Outcome : Action → Type
  | request r => r.Reply
  | getChunk _ => Except StoreError Chunk
  | call c => Except OperationError c.Answer
  | query q => Except OperationError q.Answer
  | verifyLink .. => Except OperationError Verification
  | verifyNamespace .. => Except OperationError (List (Link × Verification))

/-- Runs a program next to a chain that it does not ask. -/
def beside {σ α : Type} (b : Backend σ) (p : Program α) (s : σ) (c : Chain) : α × σ × Chain :=
  let (outcome, s) := p.run b s
  (outcome, s, c)

def run {σ : Type} (b : Backend σ) : (a : Action) → σ → Chain → a.Outcome × σ × Chain
  | request r, s, c => beside b (.ask r .done) s c
  | getChunk cid, s, c => beside b (Access.getChunk cid).run s c
  | call c, s, chain => beside b c.operation.program s chain
  | query q, s, c => beside b q.operation.program s c
  | verifyLink settings profile link, s, c =>
    let (outcome, c) := Reader.verifyLink settings.requireRegisteredKey c profile link
    (outcome, s, c)
  | verifyNamespace settings owner namespaceName, s, c =>
    Reader.verifyNamespace settings b owner namespaceName s c

def editor : Action → Option Address
  | request (.swapProfile owner ..) => some owner
  | call c => some c.owner
  | _ => none

/-- Records that are swapped in directly are made by the code, in place of a revision that has a
storable successor. -/
def Fits : Action → Prop
  | request (.swapIndex _ _ _ next) => next.Made
  | request (.swapProfile _ expected next) => expected.getD 0 < revisionLimit ∧ next.Made
  | call c => c.KeepsStorable
  | _ => True

end Action

inductive Turn
  | act (a : Action)
  /-- Closes the store and opens it anew. -/
  | reopen

namespace Turn

def Fits : Turn → Prop
  | act a => a.Fits
  | reopen => True

def editor : Turn → Option Address
  | act a => a.editor
  | reopen => none

end Turn

namespace Script

/-- How many calls of a script may swap the profile of an owner. -/
def edits (script : List Turn) (owner : Address) : Nat :=
  script.countP fun turn => decide (turn.editor = some owner)

lemma edits_cons (turn : Turn) (rest : List Turn) (owner : Address) :
    edits (turn :: rest) owner =
      edits rest owner + if turn.editor = some owner then 1 else 0 := by
  rw [edits, edits, List.countP_cons]
  by_cases h : turn.editor = some owner <;> simp [h]

structure Answered where
  action : Action
  outcome : action.Outcome

/-- The answers of a store in memory, which cannot be closed and opened anew. -/
def memoryAnswers : List Turn → Memory → Chain → List Answered
  | [], _, _ => []
  | .reopen :: rest, m, c => memoryAnswers rest m c
  | .act a :: rest, m, c =>
    let (outcome, m, c) := a.run Memory.backend m c
    ⟨a, outcome⟩ :: memoryAnswers rest m c

/-- The answers of a store of rows, unless it cannot be opened. -/
def rowAnswers : List Turn → Rows → Chain → Except StoreError (List Answered)
  | [], _, _ => .ok []
  | .reopen :: rest, r, c => do
    let r ← r.reopen
    rowAnswers rest r c
  | .act a :: rest, r, c =>
    let (outcome, r, c) := a.run Rows.backend r c
    (rowAnswers rest r c).map (⟨a, outcome⟩ :: ·)

end Script

/-- Two ends of a call that began in mirrored stores, next to the same chain. -/
structure Alike {α : Type} (editor : Option Address) (m : Memory) (x : α × Memory × Chain)
    (y : α × Rows × Chain) : Prop where
  outcome : y.1 = x.1
  mirrors : Mirrors x.2.1 y.2.1
  chain : y.2.2 = x.2.2
  revision : ∀ owner, x.2.1.revision owner ≤
    m.revision owner + if editor = some owner then 1 else 0

namespace Action

variable {m : Memory} {r : Rows}

theorem beside_alike {α : Type} {editor : Option Address} {p : Program α} (hp : FitsRows editor p)
    (h : Mirrors m r) (heditor : ∀ owner ∈ editor, m.revision owner < revisionLimit) (c : Chain) :
    Alike editor m (beside Memory.backend p m c) (beside Rows.backend p r c) := by
  obtain ⟨houtcome, hmirrors, hrevision⟩ := hp.run h heditor
  exact ⟨houtcome, hmirrors, rfl, hrevision⟩

/-- What verification makes of a profile and links, once they were found. -/
def judge (settings : ReaderSettings) (c : Chain) :
    Except OperationError (Profile × List Link) →
      Except OperationError (List (Link × Verification)) × Chain
  | .error e => (.error e, c)
  | .ok (profile, links) =>
    let (outcome, c) := Verifier.verifyAll settings.requireRegisteredKey c profile links
    (outcome.mapError .verify, c)

lemma run_verifyNamespace {σ : Type} (b : Backend σ) (settings : ReaderSettings) (owner : Address)
    (namespaceName : String) (s : σ) (c : Chain) :
    (verifyNamespace settings owner namespaceName).run b s c =
      let audit := (Reader.audit settings.maxChainWalk owner namespaceName).run b s
      ((judge settings c audit.1).1, audit.2, (judge settings c audit.1).2) := by
  simp only [run, Reader.verifyNamespace]
  rcases (Reader.audit settings.maxChainWalk owner namespaceName).run b s with
    ⟨_ | ⟨profile, links⟩, s'⟩ <;> rfl

/-- Both stores give the same answer to a call. -/
theorem run_alike {a : Action} (hfits : a.Fits) (h : Mirrors m r)
    (heditor : ∀ owner ∈ a.editor, m.revision owner < revisionLimit) (c : Chain) :
    Alike a.editor m (a.run Memory.backend m c) (a.run Rows.backend r c) := by
  cases a with
  | request request =>
    have hp : FitsRows (editor (.request request)) (Program.ask request .done) := by
      cases request with
      | swapIndex owner namespaceName expected next =>
        exact .other (NameIndex.Made.normal hfits) trivial fun reply _ => .done reply
      | swapProfile owner expected next =>
        exact .swap ⟨hfits.1, hfits.2.storable⟩ (.done _) fun current => .done _
      | _ => exact .other trivial trivial fun reply _ => .done reply
    exact beside_alike hp h heditor c
  | getChunk cid => exact beside_alike (.of_asks (Access.getChunk_onlyReads cid)) h heditor c
  | call call => exact beside_alike (Call.fitsRows hfits) h heditor c
  | query q => exact beside_alike (.of_asks q.onlyReads) h heditor c
  | verifyLink settings profile link => exact ⟨rfl, h, rfl, fun owner => Nat.le_add_right ..⟩
  | verifyNamespace settings owner namespaceName =>
    have haudit := Reader.audit_onlyReads settings.maxChainWalk owner namespaceName
    obtain ⟨hfound, hmirrors, hrevision⟩ := (FitsRows.of_asks haudit).run h heditor
    rw [run_verifyNamespace, run_verifyNamespace]
    refine ⟨?_, hmirrors, ?_, hrevision⟩
    · exact congrArg (fun found => (judge settings c found).1) hfound
    · exact congrArg (fun found => (judge settings c found).2) hfound

end Action

namespace Script

theorem rowAnswers_of_mirrors {script : List Turn} (hfits : ∀ turn ∈ script, turn.Fits)
    {m : Memory} {r : Rows} (h : Mirrors m r)
    (hedits : ∀ owner, m.revision owner + edits script owner ≤ revisionLimit) (c : Chain) :
    rowAnswers script r c = .ok (memoryAnswers script m c) := by
  induction script generalizing m r c with
  | nil => rfl
  | cons turn rest ih =>
    obtain ⟨hturn, hrest⟩ := List.forall_mem_cons.1 hfits
    simp only [edits_cons] at hedits
    cases turn with
    | reopen =>
      rw [rowAnswers, h.reopen]
      exact ih hrest h hedits c
    | act a =>
      have heditor : ∀ owner ∈ a.editor, m.revision owner < revisionLimit := by
        intro owner howner
        have hcount := hedits owner
        rw [if_pos (show Turn.editor (.act a) = some owner from howner)] at hcount
        omega
      have hstep := a.run_alike hturn h heditor c
      have hleft : ∀ owner,
          (a.run Memory.backend m c).2.1.revision owner + edits rest owner ≤ revisionLimit := by
        intro owner
        have hcount := hedits owner
        have hrevision := hstep.revision owner
        rw [Turn.editor] at hcount
        omega
      have hafter := ih hrest hstep.mirrors hleft (a.run Memory.backend m c).2.2
      simp only [rowAnswers, memoryAnswers, hstep.outcome, hstep.chain, hafter]
      rfl

/-- From empty stores on, a store of rows answers every call of a script as a store in memory does,
wherever it is closed and opened anew. Revisions are numbers of 64 bits in rows, so no profile may
be swapped more often than such a number can count. -/
theorem rows_answer_as_memory {script : List Turn} (hfits : ∀ turn ∈ script, turn.Fits)
    (hedits : ∀ owner, edits script owner ≤ revisionLimit) (c : Chain) :
    rowAnswers script .fresh c = .ok (memoryAnswers script .empty c) := by
  refine rowAnswers_of_mirrors hfits .fresh (fun owner => ?_) c
  have hnone : Memory.empty.revision owner = 0 := rfl
  have hcount := hedits owner
  omega

/-- An append, and a profile that is swapped in place of the one that the append left. -/
def sample : List Turn := [
  .act (.call sampleCall),
  .reopen,
  .act (.query (.resolve samplePublisher.owner "DOCS" "GRÖSSE")),
  .act (.request (.swapProfile samplePublisher.owner (some 1)
    (Profile.empty.setHead "Docs" (Cid.ofBytes [])))),
  .reopen,
  .act (.verifyNamespace .standard samplePublisher.owner "docs")]

lemma sample_fits (turn : Turn) (h : turn ∈ sample) : turn.Fits := by
  have hempty : Profile.empty.Made := .parsed (Profile.parse_document Profile.storable_empty) nofun
  have hexpected : (1 : Nat) < revisionLimit := by decide
  simp only [sample, List.mem_cons, List.not_mem_nil, or_false] at h
  rcases h with rfl | rfl | rfl | rfl | rfl | rfl
  · trivial
  · trivial
  · trivial
  · exact ⟨hexpected, hempty.setHead "Docs" _⟩
  · trivial
  · trivial

lemma sample_edits (owner : Address) : edits sample owner ≤ revisionLimit := by
  have hlength : sample.length ≤ revisionLimit := by decide
  exact List.countP_le_length.trans hlength

theorem sample_answers :
    (∀ turn ∈ sample, turn.Fits) ∧ (∀ owner, edits sample owner ≤ revisionLimit) ∧
      rowAnswers sample .fresh (.ofId 1) = .ok (memoryAnswers sample .empty (.ofId 1)) :=
  ⟨sample_fits, sample_edits, rows_answer_as_memory sample_fits sample_edits _⟩

end Script
end SignedNames
