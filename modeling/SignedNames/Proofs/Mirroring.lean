import Mathlib
import SignedNames.Proofs.Interleaving
import SignedNames.Proofs.Reading
import SignedNames.Proofs.Store.Agreement

/-!
# Programs over mirrored stores

A program goes the same way over a store in memory and over rows that mirror it, if it stores
nothing a row could not give back. What readers ask for stores nothing, and publishers only store
indexes and profiles that they have read and gone on from.
-/
namespace SignedNames

def Request.OnlyReads : Request → Prop
  | .put _ => False
  | .swapIndex .. => False
  | .swapProfile .. => False
  | _ => True

/-- What a store in memory may reply that rows mirror. The profile of the editor has not come to the
last revision. -/
def Request.Mirrored (editor : Option Address) : (r : Request) → r.Reply → Prop
  | .loadIndex .., .ok found => ∀ i ∈ found, i.Normal
  | .swapIndex .., .ok (.conflict current) => ∀ i ∈ current, i.Normal
  | .loadProfile owner, .ok found =>
    (profileOf found).Storable ∧ (editor = some owner → revisionOf found < revisionLimit)
  | _, _ => True

/-- A program that stores nothing a row could not give back. Only the profile of the editor may be
swapped, and no more once that was done. -/
inductive FitsRows {α : Type} : (editor : Option Address) → Program α → Prop
  | done {editor : Option Address} (result : α) : FitsRows editor (.done result)
  | other {editor : Option Address} {r : Request} {next : r.Reply → Program α} (fits : r.FitsRows)
    (spares : r.SparesProfiles)
    (rest : ∀ reply, r.Mirrored editor reply → FitsRows editor (next reply)) :
    FitsRows editor (.ask r next)
  | swap {owner : Address} {expected : Option Nat} {profile : Profile}
    {next : Except StoreError (Swap (Versioned Profile)) → Program α}
    (fits : (Request.swapProfile owner expected profile).FitsRows)
    (swapped : FitsRows none (next (.ok .swapped)))
    (lost : ∀ current, FitsRows (some owner) (next (.ok (.conflict current)))) :
    FitsRows (some owner) (.ask (.swapProfile owner expected profile) next)

def Memory.revision (m : Memory) (owner : Address) : Nat := revisionOf (m.profiles.get? owner)

namespace Memory

variable (m : Memory) (owner : Address) (expected : Option Nat) (next : Profile)

lemma swapProfile_cases :
    ((m.swapProfile owner expected next).1 = .swapped ∧
      ∀ other, (m.swapProfile owner expected next).2.revision other =
        m.revision other + if owner = other then 1 else 0) ∨
    ∃ current, m.swapProfile owner expected next = (.conflict current, m) := by
  rw [swapProfile]
  by_cases hcurrent : (m.profiles.get? owner).map (·.revision) = expected
  · rw [if_pos hcurrent]
    refine .inl ⟨rfl, fun other => ?_⟩
    rw [revision, Table.get?_set]
    split
    · rename_i howner
      subst howner
      rw [revision, revisionOf, revisionOf, hcurrent]
      rfl
    · rfl
  · rw [if_neg hcurrent]
    exact .inr ⟨_, rfl⟩

end Memory

theorem Mirrors.mirrored {m : Memory} {r : Rows} (h : Mirrors m r) {editor : Option Address}
    (heditor : ∀ owner ∈ editor, m.revision owner < revisionLimit) (request : Request) :
    request.Mirrored editor (Memory.backend request m).1 := by
  have hindex (owner : Address) (namespaceName : String) :
      ∀ i ∈ m.index? owner namespaceName, i.Normal := fun i hi => h.contents.normal _ i hi
  cases request with
  | loadIndex owner namespaceName => exact hindex owner namespaceName
  | swapIndex owner namespaceName expected next =>
    simp only [Memory.backend, Memory.swapIndex]
    split
    · trivial
    · exact hindex owner namespaceName
  | loadProfile owner =>
    refine ⟨?_, fun howner => heditor owner howner⟩
    cases hrecord : m.profiles.get? owner with
    | none => exact Profile.storable_empty
    | some record => exact h.storable owner record hrecord
  | _ => trivial

namespace FitsRows

variable {α β : Type} {editor : Option Address} {p : Program α}

/-- The program ends alike over both stores, and the rows mirror the store in memory again. The
revision of the editor's profile has moved on by one at most. -/
theorem run (h : FitsRows editor p) {m : Memory} {r : Rows} (hmirrors : Mirrors m r)
    (heditor : ∀ owner ∈ editor, m.revision owner < revisionLimit) :
    (p.run Rows.backend r).1 = (p.run Memory.backend m).1 ∧
      Mirrors (p.run Memory.backend m).2 (p.run Rows.backend r).2 ∧
      ∀ owner, (p.run Memory.backend m).2.revision owner ≤
        m.revision owner + if editor = some owner then 1 else 0 := by
  induction h generalizing m r with
  | done result => exact ⟨rfl, hmirrors, fun owner => Nat.le_add_right ..⟩
  | @other editor request next fits spares rest ih =>
    obtain ⟨hreply, hafter⟩ := hmirrors.backend fits
    have hprofiles := Memory.profiles_backend spares m
    have hrevision : ∀ owner, (Memory.backend request m).2.revision owner = m.revision owner := by
      intro owner
      rw [Memory.revision, hprofiles, Memory.revision]
    have hmirrored := hmirrors.mirrored heditor request
    have hrest := ih _ hmirrored hafter fun owner howner => (hrevision owner).trans_lt
      (heditor owner howner)
    simp only [hrevision] at hrest
    rw [Program.run, Program.run]
    simp only [hreply]
    exact hrest
  | @swap owner expected profile next fits swapped lost ihSwapped ihLost =>
    obtain ⟨hreply, hafter⟩ := hmirrors.backend fits
    rw [Program.run, Program.run]
    simp only [hreply]
    -- A swap that lands is the only one, and one that is lost leaves both stores as they are.
    rcases m.swapProfile_cases owner expected profile with ⟨houtcome, hrevision⟩ | ⟨current, hlost⟩
    · have hreply' : (Memory.backend (.swapProfile owner expected profile) m).1 = .ok .swapped :=
        congrArg Except.ok houtcome
      obtain ⟨hresult, hmirrors', hle⟩ := ihSwapped hafter (by rintro _ ⟨⟩)
      rw [hreply']
      refine ⟨hresult, hmirrors', fun other => (hle other).trans ?_⟩
      have hother := hrevision other
      simp only [Option.some.injEq]
      exact hother.le
    · have hmemory : Memory.backend (.swapProfile owner expected profile) m =
          (.ok (.conflict current), m) := by
        simp only [Memory.backend, hlost]
      rw [hmemory] at hafter ⊢
      exact ihLost current hafter heditor

theorem bind (h : FitsRows editor p) {f : α → Program β}
    (hf : ∀ editor a, FitsRows editor (f a)) : FitsRows editor (p.bind f) := by
  induction h with
  | done result => exact hf _ result
  | other fits spares _ ih => exact .other fits spares ih
  | swap fits _ _ swapped lost => exact .swap fits swapped lost

theorem of_asks (h : p.Asks Request.OnlyReads) : FitsRows editor p := by
  induction p with
  | done result => exact .done result
  | ask r next ih =>
    have hread := h.1
    have hfits : r.FitsRows ∧ r.SparesProfiles := by
      cases r with
      | swapIndex => exact hread.elim
      | swapProfile => exact hread.elim
      | _ => exact ⟨trivial, trivial⟩
    exact .other hfits.1 hfits.2 fun reply _ => ih reply (h.2 reply)

end FitsRows

lemma NameIndex.Normal.advance {observed : Option NameIndex} (h : ∀ i ∈ observed, i.Normal)
    (cid : Cid) (c : Chunk) : (NameIndex.advance observed cid c).Normal := by
  cases observed with
  | none =>
    have hempty : ∀ e ∈ (NameMap.empty : NameMap Cid).entries, Text.lower e.1 = e.1 :=
      List.forall_mem_nil _
    exact Lineage.normal_foldl_insert hempty cid c.links
  | some i => exact Lineage.normal_foldl_insert (h i rfl) cid c.links

namespace Publisher

variable (p : Publisher)

lemma refresh_fitsRows {α : Type} {editor : Option Address} {q : Profile} (hq : q.Storable)
    (refreshed : Option String) {f : Except OperationError Profile → Program α}
    (found : ∀ q : Profile, q.Storable → FitsRows editor (f (.ok q)))
    (refused : ∀ e, FitsRows editor (f (.error e))) :
    FitsRows editor ((p.refresh q refreshed).program.bind f) := by
  cases refreshed with
  | none => exact found q hq
  | some namespaceName =>
    rw [refresh, Operation.program_ask_bind]
    refine .other trivial trivial fun reply _ => ?_
    rcases reply with e | _ | i
    · exact refused _
    · exact found q hq
    · exact found _ (hq.setHead namespaceName i.head)

theorem editProfileTimes_fitsRows {β : Type} (refreshed : Option String)
    {edit : Profile → Profile × β} (hedit : ∀ q : Profile, q.Storable → (edit q).1.Storable)
    (attempts : Nat) :
    FitsRows (some p.owner) (p.editProfileTimes refreshed edit attempts).program := by
  induction attempts with
  | zero => exact .done _
  | succ attempts ih =>
    rw [editProfileTimes, Operation.program_ask_bind]
    refine .other trivial trivial fun reply hreply => ?_
    cases reply with
    | error e => exact .done _
    | ok current =>
      obtain ⟨hcurrent, hrevision⟩ := hreply
      rw [Operation.after_mapError_ok, Operation.program_bind]
      refine p.refresh_fitsRows hcurrent refreshed (fun q hq => ?_) fun e => .done _
      have hnext := hedit q hq
      rw [Operation.after_ok]
      generalize edit q = edited at hnext ⊢
      obtain ⟨next, answer⟩ := edited
      rw [Operation.program_ask_bind]
      exact .swap ⟨hrevision rfl, hnext⟩ (.done _) fun _ => ih

theorem syncProfile_fitsRows (namespaceName : String) :
    FitsRows (some p.owner) (p.syncProfile namespaceName).program := by
  rw [syncProfile, Operation.program_map]
  exact (p.editProfileTimes_fitsRows _ (fun _ => id) _).bind fun editor outcome => .done _

theorem appendTimes_fitsRows (namespaceName : String) (links : List Link) (attempts : Nat)
    {observed : Option NameIndex} (hobserved : ∀ i ∈ observed, i.Normal) :
    FitsRows (some p.owner) (p.appendTimes namespaceName links attempts observed).program := by
  induction attempts generalizing observed with
  | zero => exact .done _
  | succ attempts ih =>
    rw [appendTimes, Operation.program_putChunk_bind]
    refine .other trivial trivial fun reply _ => ?_
    cases reply with
    | error e => exact .done _
    | ok cid =>
      rw [Operation.after_mapError_ok, Operation.program_ask_bind]
      refine .other (NameIndex.Normal.advance hobserved cid _) trivial fun reply hreply => ?_
      rcases reply with e | _ | current
      · exact .done _
      · rw [Operation.after_mapError_ok, Operation.program_bind, Operation.program_attempt,
          Program.bind_assoc]
        exact (p.syncProfile_fitsRows namespaceName).bind fun editor outcome => .done _
      · exact ih hreply

theorem append_fitsRows (namespaceName : String) (links : List Link) :
    FitsRows (some p.owner) (p.append namespaceName links).program := by
  rw [append]
  split
  · exact .done _
  · beta_reduce
    rw [Operation.program_bind, Operation.program_check, Program.bind_done]
    cases links.forM fun l => l.body.validate with
    | error e => exact .done _
    | ok _ =>
      rw [Operation.after_mapError_ok, Operation.program_ask_bind]
      refine .other trivial trivial fun reply hreply => ?_
      cases reply with
      | error e => exact .done _
      | ok observed => exact p.appendTimes_fitsRows _ _ _ hreply

theorem publish_fitsRows (namespaceName : String) (d : LinkDraft) (time : UInt64) (nonce : Nonce) :
    FitsRows (some p.owner) (p.publish namespaceName d time nonce).program := by
  rw [publish, Operation.program_bind, Operation.program_check, Program.bind_done]
  cases p.sign d time nonce with
  | error e => exact .done _
  | ok link =>
    rw [Operation.after_mapError_ok, Operation.program_bind]
    refine (p.append_fitsRows namespaceName [link]).bind fun editor outcome => ?_
    cases outcome <;> exact .done _

theorem registerKey_fitsRows (validFrom : UInt64) (validTo : Option UInt64) :
    FitsRows (some p.owner) (p.registerKey validFrom validTo).program := by
  rw [registerKey, Operation.program_bind, Operation.program_check, Program.bind_done]
  cases (p.signingKey validFrom validTo).fingerprint with
  | error e => exact .done _
  | ok fingerprint =>
    rw [Operation.after_mapError_ok, Operation.program_bind]
    refine (p.editProfileTimes_fitsRows none (fun q hq => hq.putKey fingerprint _) _).bind
      fun editor outcome => ?_
    cases outcome <;> exact .done _

theorem revokeKey_fitsRows (fingerprint : String) (time : UInt64) :
    FitsRows (some p.owner) (p.revokeKey fingerprint time).program := by
  rw [revokeKey, Operation.program_bind]
  refine (p.editProfileTimes_fitsRows none (fun q hq => ?_) _).bind fun editor outcome => ?_
  · cases hrevoke : q.revoke? fingerprint time with
    | none => exact hq
    | some revoked => exact hq.revoke hrevoke
  · rcases outcome with e | edited
    · exact .done _
    · rw [Operation.after_ok]
      split <;> exact .done _

end Publisher

theorem Access.appendOnce_fitsRows (editor : Option Address) (owner : Address)
    (namespaceName : String) (links : List Link) :
    FitsRows editor (Operation.access (appendOnce owner namespaceName links)).program := by
  rw [appendOnce, Operation.program_access_bind]
  refine .other trivial trivial fun reply hreply => ?_
  cases reply with
  | error e => exact .done _
  | ok current =>
    rw [Operation.afterReply, Operation.program_access_putChunk]
    refine .other trivial trivial fun reply _ => ?_
    cases reply with
    | error e => exact .done _
    | ok cid =>
      rw [Operation.afterReply, Operation.program_access_bind]
      refine .other (NameIndex.Normal.advance hreply cid _) trivial fun reply _ => ?_
      rcases reply with e | _ | now <;> exact .done _

/-- An edit of one's own leaves profiles that can be read back as such. -/
def Call.KeepsStorable : Call → Prop
  | updateProfile _ edit => ∀ q : Profile, q.Storable → (edit q).Storable
  | _ => True

theorem Call.fitsRows {c : Call} (h : c.KeepsStorable) :
    FitsRows (some c.owner) c.operation.program := by
  cases c with
  | append p namespaceName links => exact p.append_fitsRows namespaceName links
  | publish p namespaceName d time nonce => exact p.publish_fitsRows namespaceName d time nonce
  | rival owner namespaceName links => exact Access.appendOnce_fitsRows _ owner namespaceName links
  | syncProfile p namespaceName => exact p.syncProfile_fitsRows namespaceName
  | registerKey p validFrom validTo => exact p.registerKey_fitsRows validFrom validTo
  | revokeKey p fingerprint time => exact p.revokeKey_fitsRows fingerprint time
  | updateProfile p edit =>
    have hedit : ∀ q : Profile, q.Storable → (edit q, ()).1.Storable := h
    exact p.editProfileTimes_fitsRows none hedit _

theorem Access.getChunk_onlyReads (cid : Cid) : (getChunk cid).run.Asks Request.OnlyReads := by
  rw [getChunk]
  refine ⟨trivial, fun reply => ?_⟩
  cases reply with
  | error e => trivial
  | ok bs =>
    change Program.Asks _ (ExceptT.run (if _ then _ else _))
    split
    · split <;> trivial
    · trivial

theorem Operation.getChunk_onlyReads (cid : Cid) :
    (access (Access.getChunk cid)).program.Asks Request.OnlyReads :=
  (Access.getChunk_onlyReads cid).bind fun _ => trivial

namespace Reader

theorem profile_onlyReads (owner : Address) :
    (profile owner).program.Asks Request.OnlyReads := by
  rw [profile, Operation.program_ask_bind]
  refine ⟨trivial, fun reply => ?_⟩
  cases reply <;> trivial

theorem index_onlyReads (owner : Address) (namespaceName : String) :
    (index owner namespaceName).program.Asks Request.OnlyReads := by
  rw [index, Operation.program_ask_bind]
  refine ⟨trivial, fun reply => ?_⟩
  rcases reply with e | _ | i <;> trivial

theorem resolve_onlyReads (owner : Address) (namespaceName name : String) :
    (resolve owner namespaceName name).program.Asks Request.OnlyReads := by
  refine Operation.asks_bind (index_onlyReads owner namespaceName) fun i => ?_
  split
  · trivial
  · refine Operation.asks_bind (Operation.getChunk_onlyReads _) fun c => ?_
    split <;> trivial

theorem walk_onlyReads {α β : Type} (limit : Nat) (take : α → Chunk → α ⊕ β) (finish : α → β)
    (remaining : Nat) (seen : List Cid) (state : α) (next : Option Cid) :
    (walk limit take finish remaining seen state next).program.Asks Request.OnlyReads := by
  induction remaining generalizing seen state next with
  | zero =>
    rw [walk.eq_def]
    split
    · trivial
    · split <;> trivial
  | succ remaining ih =>
    cases next with
    | none =>
      rw [program_walk_none]
      trivial
    | some cid =>
      by_cases hseen : cid ∈ seen
      · rw [walk, if_pos hseen]
        trivial
      · rw [walk, if_neg hseen]
        refine Operation.asks_bind (Operation.getChunk_onlyReads cid) fun c => ?_
        split
        · exact ih ..
        · trivial

theorem resolveInProfile_onlyReads (limit : Nat) (q : Profile) (namespaceName name : String) :
    (resolveInProfile limit q namespaceName name).program.Asks Request.OnlyReads := by
  rw [resolveInProfile]
  split
  · trivial
  · exact walk_onlyReads ..

theorem links_onlyReads (limit : Nat) (owner : Address) (namespaceName : String) :
    (links limit owner namespaceName).program.Asks Request.OnlyReads :=
  Operation.asks_bind (index_onlyReads owner namespaceName) fun _ => walk_onlyReads ..

theorem history_onlyReads (limit : Nat) (owner : Address) (namespaceName name : String) :
    (history limit owner namespaceName name).program.Asks Request.OnlyReads :=
  Operation.asks_bind (links_onlyReads limit owner namespaceName) fun _ => trivial

theorem audit_onlyReads (limit : Nat) (owner : Address) (namespaceName : String) :
    (audit limit owner namespaceName).program.Asks Request.OnlyReads :=
  Operation.asks_bind (profile_onlyReads owner) fun _ =>
    Operation.asks_bind (links_onlyReads limit owner namespaceName) fun _ => trivial

end Reader
end SignedNames
