import Mathlib
import SignedNames.Proofs.Interleaving

/-!
# How an edit of a profile goes

An edit is followed from request to request. It gets the profile, then looks up the head of a
namespace if that is to be brought up to date, and asks for a swap that only lands if the profile
is still the one it got. Appends do so after their index was swapped, all other calls from the start
or not at all. What lands is the edit of the profile that the call got last, and no call lands more
than once.
-/
namespace SignedNames

def Request.SparesProfiles : Request → Prop
  | .swapProfile .. => False
  | _ => True

namespace Memory

lemma profiles_backend {r : Request} (h : r.SparesProfiles) (m : Memory) :
    (backend r m).2.profiles = m.profiles := by
  cases r with
  | swapProfile => exact h.elim
  | get cid =>
    simp only [backend]
    split <;> rfl
  | swapIndex owner namespaceName expected next =>
    simp only [backend, swapIndex]
    split <;> rfl
  | _ => rfl

end Memory

/-- The profile of a stored record; an owner without one has an empty profile. -/
def profileOf (record : Option (Versioned Profile)) : Profile := (record.map (·.value)).getD .empty

/-- The revision of a stored record; an owner without one is before the first. -/
def revisionOf (record : Option (Versioned Profile)) : Nat := (record.map (·.revision)).getD 0

/-- How far a call has got with the profile of its owner. -/
inductive Stage
  | apart
  /-- It has got a record, and has to look up a head. -/
  | loaded (base : Option (Versioned Profile))
  /-- It has got a record, and wants a profile with these heads in its place. -/
  | refreshed (base : Option (Versioned Profile)) (heads : NameMap Cid)
  | swapped

def Stage.begun : Option String → Option (Versioned Profile) → Stage
  | none, base => .refreshed base (profileOf base).namespaces
  | some _, base => .loaded base

/-- The rest of a call at a stage. The namespace is the one whose head is brought up to date, and
`reports` says which results tell that this was done. -/
inductive Edits {α : Type} (owner : Address) (namespaceName : Option String)
    (reports : α → Prop) : Stage → Program α → Prop
  | done {stage : Stage} {result : α} (h : reports result → stage = .swapped) :
    Edits owner namespaceName reports stage (.done result)
  | other {r : Request} {next : r.Reply → Program α} (spares : r.SparesProfiles)
    (rest : ∀ reply, Edits owner namespaceName reports .apart (next reply)) :
    Edits owner namespaceName reports .apart (.ask r next)
  | load {next : Except StoreError (Option (Versioned Profile)) → Program α}
    (begun : ∀ base,
      Edits owner namespaceName reports (.begun namespaceName base) (next (.ok base)))
    (refused : ∀ e, Edits owner namespaceName reports .apart (next (.error e))) :
    Edits owner namespaceName reports .apart (.ask (.loadProfile owner) next)
  | refresh {name : String} {base : Option (Versioned Profile)}
    {next : Except StoreError (Option NameIndex) → Program α} (hname : namespaceName = some name)
    (found : ∀ i, Edits owner namespaceName reports
      (.refreshed base ((profileOf base).setHead name i.head).namespaces) (next (.ok (some i))))
    (missing : Edits owner namespaceName reports (.refreshed base (profileOf base).namespaces)
      (next (.ok none)))
    (refused : ∀ e, Edits owner namespaceName reports .apart (next (.error e))) :
    Edits owner namespaceName reports (.loaded base) (.ask (.loadIndex owner name) next)
  | swap {base : Option (Versioned Profile)} {heads : NameMap Cid} {profile : Profile}
    {next : Except StoreError (Swap (Versioned Profile)) → Program α}
    (hheads : profile.namespaces = heads)
    (swapped : Edits owner namespaceName reports .swapped (next (.ok .swapped)))
    (lost : ∀ current, Edits owner namespaceName reports .apart (next (.ok (.conflict current))))
    (refused : ∀ e, Edits owner namespaceName reports .apart (next (.error e))) :
    Edits owner namespaceName reports (.refreshed base heads)
      (.ask (.swapProfile owner (base.map (·.revision)) profile) next)

theorem Edits.refused {α : Type} {owner : Address} {namespaceName : Option String}
    {reports : α → Prop} {stage : Stage} {r : Request} {next : r.Reply → Program α}
    (h : Edits owner namespaceName reports stage (.ask r next)) (e : StoreError) :
    Edits owner namespaceName reports .apart (next (.error e)) := by
  cases h with
  | other spares rest => exact rest _
  | load begun refused => exact refused e
  | refresh hname found missing refused => exact refused e
  | swap hheads swapped lost refused => exact refused e

def Profile.withHead (q : Profile) : Option String → Option NameIndex → Profile
  | some name, some i => q.setHead name i.head
  | _, _ => q

/-- How far a call has got with a new revision of the profile of its owner. -/
inductive Progress
  | apart
  /-- It has got a record, and has to look up a head. -/
  | loaded (base : Option (Versioned Profile))
  /-- It has got a record, and found this index if it has looked one up. -/
  | ready (base : Option (Versioned Profile)) (found : Option NameIndex)
  | landed (record : Versioned Profile)

namespace Progress

def begun : Option String → Option (Versioned Profile) → Progress
  | none, base => .ready base none
  | some _, base => .loaded base

def record? : Progress → Option (Versioned Profile)
  | .landed record => some record
  | _ => none

def stage (namespaceName : Option String) : Progress → Stage
  | .apart => .apart
  | .loaded base => .loaded base
  | .ready base found => .refreshed base ((profileOf base).withHead namespaceName found).namespaces
  | .landed _ => .swapped

end Progress

/-- The rest of a call that may put an edited profile in the place of the one that it got. A call
has landed at most one revision, and `tells` says what its result has to do with it. -/
inductive Revises {α : Type} (owner : Address) (namespaceName : Option String)
    (edit : Profile → Profile) (tells : α → Option (Versioned Profile) → Prop) :
    Progress → Program α → Prop
  | done {progress : Progress} {result : α} (h : tells result progress.record?) :
    Revises owner namespaceName edit tells progress (.done result)
  | other {r : Request} {next : r.Reply → Program α} (spares : r.SparesProfiles)
    (rest : ∀ reply, Revises owner namespaceName edit tells .apart (next reply)) :
    Revises owner namespaceName edit tells .apart (.ask r next)
  | load {next : Except StoreError (Option (Versioned Profile)) → Program α}
    (begun : ∀ base,
      Revises owner namespaceName edit tells (.begun namespaceName base) (next (.ok base)))
    (refused : ∀ e, Revises owner namespaceName edit tells .apart (next (.error e))) :
    Revises owner namespaceName edit tells .apart (.ask (.loadProfile owner) next)
  | refresh {name : String} {base : Option (Versioned Profile)}
    {next : Except StoreError (Option NameIndex) → Program α} (hname : namespaceName = some name)
    (found : ∀ i, Revises owner namespaceName edit tells (.ready base i) (next (.ok i)))
    (refused : ∀ e, Revises owner namespaceName edit tells .apart (next (.error e))) :
    Revises owner namespaceName edit tells (.loaded base) (.ask (.loadIndex owner name) next)
  | swap {base : Option (Versioned Profile)} {found : Option NameIndex} {profile : Profile}
    {next : Except StoreError (Swap (Versioned Profile)) → Program α}
    (hprofile : profile = edit ((profileOf base).withHead namespaceName found))
    (swapped : Revises owner namespaceName edit tells (.landed ⟨profile, revisionOf base + 1⟩)
      (next (.ok .swapped)))
    (lost : ∀ current,
      Revises owner namespaceName edit tells .apart (next (.ok (.conflict current))))
    (refused : ∀ e, Revises owner namespaceName edit tells .apart (next (.error e))) :
    Revises owner namespaceName edit tells (.ready base found)
      (.ask (.swapProfile owner (base.map (·.revision)) profile) next)

namespace Revises

variable {α β : Type} {owner : Address} {namespaceName : Option String} {edit : Profile → Profile}
  {tells : α → Option (Versioned Profile) → Prop} {progress : Progress}

theorem bind_done {tells' : β → Option (Versioned Profile) → Prop} {f : α → Program β} {g : α → β}
    (hf : ∀ a, f a = .done (g a)) (htells : ∀ a landed, tells a landed → tells' (g a) landed)
    {rest : Program α} (h : Revises owner namespaceName edit tells progress rest) :
    Revises owner namespaceName edit tells' progress (rest.bind f) := by
  induction h with
  | done h =>
    rw [Program.bind_done, hf]
    exact .done (htells _ _ h)
  | other spares _ ih => exact .other spares ih
  | load _ _ begun refused => exact .load begun refused
  | refresh hname _ _ found refused => exact .refresh hname found refused
  | swap hprofile _ _ _ swapped lost refused => exact .swap hprofile swapped lost refused

lemma congr {edit' : Profile → Profile} {rest : Program α}
    (h : Revises owner namespaceName edit tells progress rest) (hedit : ∀ q, edit q = edit' q) :
    Revises owner namespaceName edit' tells progress rest :=
  funext hedit ▸ h

theorem refused {r : Request} {next : r.Reply → Program α}
    (h : Revises owner namespaceName edit tells progress (.ask r next)) (e : StoreError) :
    Revises owner namespaceName edit tells .apart (next (.error e)) := by
  cases h with
  | other spares rest => exact rest _
  | load begun refused => exact refused e
  | refresh hname found refused => exact refused e
  | swap hprofile swapped lost refused => exact refused e

theorem of_asks (htells : ∀ a, tells a none) {p : Program α}
    (h : p.Asks Request.SparesProfiles) : Revises owner namespaceName edit tells .apart p := by
  induction p with
  | done result => exact .done (htells result)
  | ask r next ih => exact .other h.1 fun reply => ih reply (h.2 reply)

theorem edits (hedit : ∀ q, (edit q).namespaces = q.namespaces) {reports : α → Prop}
    (hreports : ∀ a, tells a none → ¬reports a) {rest : Program α}
    (h : Revises owner namespaceName edit tells progress rest) :
    Edits owner namespaceName reports (progress.stage namespaceName) rest := by
  induction h with
  | @done progress result h =>
    refine .done fun hreport => ?_
    cases progress with
    | landed record => rfl
    | _ => exact absurd hreport (hreports result h)
  | other spares _ ih => exact .other spares ih
  | load _ _ begun refused =>
    refine .load (fun base => ?_) refused
    have hbegun := begun base
    cases namespaceName <;> exact hbegun
  | @refresh name base _ hname _ _ found refused =>
    subst hname
    exact .refresh rfl (fun i => found (some i)) (found none) refused
  | swap hprofile _ _ _ swapped lost refused =>
    exact .swap (hprofile ▸ hedit _) swapped lost refused

end Revises

lemma Access.appendOnce_spares (owner : Address) (namespaceName : String) (links : List Link) :
    (Operation.access (appendOnce owner namespaceName links)).program.Asks
      Request.SparesProfiles := by
  rw [appendOnce, Operation.program_access_bind]
  refine ⟨trivial, fun reply => ?_⟩
  cases reply with
  | error e => trivial
  | ok current =>
    rw [Operation.afterReply, Operation.program_access_putChunk]
    refine ⟨trivial, fun reply => ?_⟩
    cases reply with
    | error e => trivial
    | ok cid =>
      rw [Operation.afterReply, Operation.program_access_bind]
      refine ⟨trivial, fun reply => ?_⟩
      rcases reply with e | _ | now <;> trivial

def Succeeded {α : Type} (outcome : Except OperationError α) : Prop := ∃ a, outcome = .ok a

def Synced (outcome : Except OperationError Receipt) : Prop :=
  ∃ receipt, outcome = .ok receipt ∧ receipt.profileSynced = true

/-- What has landed is the record that the result of an edit tells of. -/
def LandsAs {β : Type} (outcome : Except OperationError (Edited β))
    (landed : Option (Versioned Profile)) : Prop :=
  landed = outcome.toOption.map (·.profile)

def LandsIfOk {α : Type} (outcome : Except OperationError α)
    (landed : Option (Versioned Profile)) : Prop :=
  landed.isSome = outcome.toOption.isSome

/-- A record has landed if the receipt says so; an append may also have left one without knowing. -/
def LandsIfSynced (outcome : Except OperationError Receipt)
    (landed : Option (Versioned Profile)) : Prop :=
  Synced outcome → landed.isSome

lemma landsIfSynced_error (e : OperationError) (landed : Option (Versioned Profile)) :
    LandsIfSynced (.error e) landed := by
  rintro ⟨_, ⟨⟩, _⟩

namespace Publisher

variable (p : Publisher)

lemma refresh_revises {α : Type} {edit : Profile → Profile}
    {tells : α → Option (Versioned Profile) → Prop} (namespaceName : Option String)
    (base : Option (Versioned Profile)) {f : Except OperationError Profile → Program α}
    (found : ∀ i, Revises p.owner namespaceName edit tells (.ready base i)
      (f (.ok ((profileOf base).withHead namespaceName i))))
    (refused : ∀ e, Revises p.owner namespaceName edit tells .apart (f (.error e))) :
    Revises p.owner namespaceName edit tells (.begun namespaceName base)
      ((p.refresh (profileOf base) namespaceName).program.bind f) := by
  cases namespaceName with
  | none => exact found none
  | some name =>
    rw [refresh, Operation.program_ask_bind]
    refine .refresh rfl (fun i => ?_) fun e => refused _
    have hfound := found i
    cases i <;> exact hfound

/-- The result of an edit is the record that it has left in the store. -/
theorem editProfileTimes_revises {β : Type} (namespaceName : Option String)
    (edit : Profile → Profile × β) (attempts : Nat) :
    Revises p.owner namespaceName (fun q => (edit q).1) LandsAs .apart
      (p.editProfileTimes namespaceName edit attempts).program := by
  induction attempts with
  | zero => exact .done rfl
  | succ attempts ih =>
    rw [editProfileTimes, Operation.program_ask_bind]
    refine .load (fun base => ?_) fun e => .done rfl
    rw [Operation.after_mapError_ok, Operation.program_bind]
    refine p.refresh_revises namespaceName base (fun i => ?_) fun e => .done rfl
    rw [Operation.after_ok]
    generalize hedited : edit ((profileOf base).withHead namespaceName i) = edited
    obtain ⟨next, answer⟩ := edited
    have hnext : next = (edit ((profileOf base).withHead namespaceName i)).1 := by rw [hedited]
    rw [Operation.program_ask_bind]
    exact .swap hnext (.done rfl) (fun _ => ih) fun e => .done rfl

theorem updateProfile_revises (edit : Profile → Profile) :
    Revises p.owner none edit LandsAs .apart (p.updateProfile edit).program :=
  p.editProfileTimes_revises none (fun q => (edit q, ())) _

theorem syncProfile_revises (namespaceName : String) :
    Revises p.owner (some namespaceName) id LandsIfOk .apart
      (p.syncProfile namespaceName).program := by
  rw [syncProfile, Operation.program_map]
  refine (p.editProfileTimes_revises (some namespaceName) (fun q => (q, ())) _).bind_done
    (fun _ => rfl) ?_
  rintro outcome _ rfl
  cases outcome <;> rfl

theorem appendTimes_revises (namespaceName : String) (links : List Link) (attempts : Nat)
    (observed : Option NameIndex) :
    Revises p.owner (some namespaceName) id LandsIfSynced .apart
      (p.appendTimes namespaceName links attempts observed).program := by
  induction attempts generalizing observed with
  | zero => exact .done (landsIfSynced_error _ _)
  | succ attempts ih =>
    rw [appendTimes, Operation.program_putChunk_bind]
    refine .other trivial fun reply => ?_
    cases reply with
    | error e => exact .done (landsIfSynced_error _ _)
    | ok cid =>
      rw [Operation.after_mapError_ok, Operation.program_ask_bind]
      refine .other trivial fun reply => ?_
      rcases reply with e | _ | current
      · exact .done (landsIfSynced_error _ _)
      · rw [Operation.after_mapError_ok, Operation.program_bind, Operation.program_attempt,
          Program.bind_assoc]
        refine (p.syncProfile_revises namespaceName).bind_done (fun _ => rfl) ?_
        rintro (e | _) landed hlanded ⟨receipt, hreceipt, hsynced⟩
        · cases hreceipt
          cases hsynced
        · exact hlanded
      · exact ih current

theorem append_revises (namespaceName : String) (links : List Link) :
    Revises p.owner (some namespaceName) id LandsIfSynced .apart
      (p.append namespaceName links).program := by
  rw [append]
  split
  · exact .done (landsIfSynced_error _ _)
  · beta_reduce
    rw [Operation.program_bind, Operation.program_check, Program.bind_done]
    cases links.forM fun l => l.body.validate with
    | error e => exact .done (landsIfSynced_error _ _)
    | ok _ =>
      rw [Operation.after_mapError_ok, Operation.program_ask_bind]
      refine .other trivial fun reply => ?_
      cases reply with
      | error e => exact .done (landsIfSynced_error _ _)
      | ok observed => exact p.appendTimes_revises _ _ _ observed

theorem publish_revises (namespaceName : String) (d : LinkDraft) (time : UInt64) (nonce : Nonce) :
    Revises p.owner (some namespaceName) id
      (fun outcome => LandsIfSynced (outcome.map Prod.snd)) .apart
      (p.publish namespaceName d time nonce).program := by
  rw [publish, Operation.program_bind, Operation.program_check, Program.bind_done]
  cases p.sign d time nonce with
  | error e => exact .done (landsIfSynced_error _ _)
  | ok link =>
    rw [Operation.after_mapError_ok, Operation.program_bind]
    refine (p.append_revises namespaceName [link]).bind_done
      (g := fun outcome => outcome.map (link, ·)) ?_ ?_
    · intro outcome
      cases outcome <;> rfl
    · rintro (e | receipt) landed hlanded <;> exact hlanded

/-- What registering a key does to a profile; a key without a fingerprint does nothing. -/
def keyEdit (validFrom : UInt64) (validTo : Option UInt64) (q : Profile) : Profile :=
  match (p.signingKey validFrom validTo).fingerprint with
  | .ok fingerprint => q.putKey fingerprint (p.signingKey validFrom validTo)
  | .error _ => q

theorem registerKey_revises (validFrom : UInt64) (validTo : Option UInt64) :
    Revises p.owner none (p.keyEdit validFrom validTo) LandsIfOk .apart
      (p.registerKey validFrom validTo).program := by
  rw [registerKey, Operation.program_bind, Operation.program_check, Program.bind_done]
  cases hfingerprint : (p.signingKey validFrom validTo).fingerprint with
  | error e => exact .done rfl
  | ok fingerprint =>
    have hedit : p.keyEdit validFrom validTo =
        fun q => q.putKey fingerprint (p.signingKey validFrom validTo) := by
      funext q
      simp only [keyEdit, hfingerprint]
    rw [Operation.after_mapError_ok, Operation.program_bind, hedit]
    refine (p.updateProfile_revises _).bind_done
      (g := fun outcome => outcome.map fun _ => fingerprint) ?_ ?_
    · intro outcome
      cases outcome <;> rfl
    · rintro outcome _ rfl
      cases outcome <;> rfl

theorem revokeKey_revises (fingerprint : String) (time : UInt64) :
    Revises p.owner none (fun q => (q.revoke? fingerprint time).getD q)
      (fun outcome landed => Succeeded outcome → landed.isSome) .apart
      (p.revokeKey fingerprint time).program := by
  rw [revokeKey, Operation.program_bind]
  refine ((p.editProfileTimes_revises none _ _).congr fun q => ?_).bind_done
    (g := fun outcome => outcome.bind fun edited =>
      if edited.answer then .ok () else .error (.misuse (.unknownFingerprint fingerprint))) ?_ ?_
  · cases q.revoke? fingerprint time <;> rfl
  · rintro (e | edited)
    · rfl
    · rw [Operation.after_ok]
      cases h : edited.answer <;> simp only [Except.bind, h] <;> rfl
  · rintro (e | edited) _ rfl ⟨_, hok⟩
    · cases hok
    · rfl

end Publisher

namespace Publisher

/-- One attempt at an edit: the profile is loaded, brought up to date, edited and swapped in, and a
conflict leads to the next attempt. -/
theorem run_editProfileTimes_succ {σ β : Type} (b : Backend σ) (p : Publisher)
    (refreshed : Option String) (edit : Profile → Profile × β) (attempts : Nat) (s : σ) :
    (p.editProfileTimes refreshed edit (attempts + 1)).run b s =
      match b (.loadProfile p.owner) s with
      | (.error e, s) => (.error (.store e), s)
      | (.ok current, s) =>
        match (p.refresh (profileOf current) refreshed).run b s with
        | (.error e, s) => (.error e, s)
        | (.ok profile, s) =>
          match b (.swapProfile p.owner (current.map (·.revision)) (edit profile).1) s with
          | (.error e, s) => (.error (.store e), s)
          | (.ok .swapped, s) =>
            (.ok ⟨⟨(edit profile).1, revisionOf current + 1⟩, (edit profile).2,
              p.settings.maxAttempts - attempts⟩, s)
          | (.ok (.conflict _), s) => (p.editProfileTimes refreshed edit attempts).run b s := by
  change ((p.editProfileTimes refreshed edit (attempts + 1)).program).run b s = _
  rw [editProfileTimes, Operation.program_ask_bind, Program.run]
  obtain ⟨_ | current, s⟩ := b (.loadProfile p.owner) s
  · rfl
  simp only [Operation.after_mapError_ok, Operation.program_bind, Program.run_bind]
  change Program.run b (Operation.after _ ((p.refresh (profileOf current) refreshed).run b s).1)
    ((p.refresh (profileOf current) refreshed).run b s).2 = _
  obtain ⟨_ | profile, s⟩ := (p.refresh (profileOf current) refreshed).run b s
  · rfl
  rw [Operation.after_ok]
  change Program.run b (Operation.ask _ >>= _).program s = _
  rw [Operation.program_ask_bind, Program.run]
  dsimp only
  generalize b (.swapProfile p.owner (current.map (·.revision)) (edit profile).1) s = swapping
  obtain ⟨_ | _ | found, s⟩ := swapping <;> rfl

/-- An edit that succeeds has ended with a swap of the profile that it returns. -/
theorem exists_swapped_of_editProfileTimes {σ β : Type} {b : Backend σ} {p : Publisher}
    {refreshed : Option String} {edit : Profile → Profile × β} {attempts : Nat} {s s' : σ}
    {edited : Edited β}
    (h : (p.editProfileTimes refreshed edit attempts).run b s = (.ok edited, s')) :
    ∃ s₀ expected, b (.swapProfile p.owner expected edited.profile.value) s₀ = (.ok .swapped, s') ∧
      edited.profile.revision = expected.getD 0 + 1 := by
  induction attempts generalizing s with
  | zero => cases h
  | succ attempts ih =>
    rw [run_editProfileTimes_succ] at h
    split at h
    · cases h
    · split at h
      · cases h
      · split at h
        · cases h
        · rename_i hswap
          cases h
          exact ⟨_, _, hswap, rfl⟩
        · exact ih h

end Publisher

namespace Call

def owner : Call → Address
  | append p .. => p.owner
  | publish p .. => p.owner
  | rival owner .. => owner
  | syncProfile p _ => p.owner
  | registerKey p .. => p.owner
  | revokeKey p .. => p.owner
  | updateProfile p _ => p.owner

def refreshed : Call → Option String
  | append _ namespaceName _ => some namespaceName
  | publish _ namespaceName .. => some namespaceName
  | syncProfile _ namespaceName => some namespaceName
  | _ => none

/-- The result tells that the head in the profile was brought up to date. -/
def Reports : (c : Call) → Except OperationError c.Answer → Prop
  | append .. => Synced
  | publish .. => fun outcome => Synced (outcome.map Prod.snd)
  | syncProfile .. => Succeeded
  | _ => fun _ => False

/-- An edit of one's own leaves the heads in the profile alone. -/
def SparesHeads : Call → Prop
  | updateProfile _ edit => ∀ q, (edit q).namespaces = q.namespaces
  | _ => True

/-- What the call makes of a profile, apart from the head that it brings up to date. -/
def edit : Call → Profile → Profile
  | registerKey p validFrom validTo => p.keyEdit validFrom validTo
  | revokeKey _ fingerprint time => fun q => (q.revoke? fingerprint time).getD q
  | updateProfile _ edit => edit
  | _ => id

def Tells : (c : Call) → Except OperationError c.Answer → Option (Versioned Profile) → Prop
  | append .. => LandsIfSynced
  | publish .. => fun outcome => LandsIfSynced (outcome.map Prod.snd)
  | rival .. => fun _ landed => landed = none
  | syncProfile .. => LandsIfOk
  | registerKey .. => LandsIfOk
  | revokeKey .. => fun outcome landed => Succeeded outcome → landed.isSome
  | updateProfile .. => LandsAs

theorem revises (c : Call) :
    Revises c.owner c.refreshed c.edit c.Tells .apart c.operation.program := by
  cases c with
  | append p namespaceName links => exact p.append_revises namespaceName links
  | publish p namespaceName d time nonce => exact p.publish_revises namespaceName d time nonce
  | rival owner namespaceName links =>
    refine .of_asks (fun outcome => ?_) (Access.appendOnce_spares owner namespaceName links)
    rfl
  | syncProfile p namespaceName => exact p.syncProfile_revises namespaceName
  | registerKey p validFrom validTo => exact p.registerKey_revises validFrom validTo
  | revokeKey p fingerprint time => exact p.revokeKey_revises fingerprint time
  | updateProfile p edit => exact p.updateProfile_revises edit

lemma edit_induction {P : Profile → Prop} (c : Call) {q : Profile} (same : P q)
    (put : ∀ fingerprint key, P (q.putKey fingerprint key))
    (revoke : ∀ fingerprint time revoked, q.revoke? fingerprint time = some revoked → P revoked)
    (own : ∀ p edit, c = .updateProfile p edit → P (edit q)) : P (c.edit q) := by
  cases c with
  | registerKey p validFrom validTo =>
    simp only [edit, Publisher.keyEdit]
    split
    · exact put _ _
    · exact same
  | revokeKey p fingerprint time =>
    cases hrevoke : q.revoke? fingerprint time with
    | none => simpa only [edit, hrevoke, Option.getD_none] using same
    | some revoked =>
      simpa only [edit, hrevoke, Option.getD_some] using revoke _ _ _ hrevoke
  | updateProfile p edit => exact own p edit rfl
  | _ => exact same

lemma edit_namespaces {c : Call} (h : c.SparesHeads) (q : Profile) :
    (c.edit q).namespaces = q.namespaces := by
  refine c.edit_induction (P := fun next => next.namespaces = q.namespaces) rfl
    (fun _ _ => rfl) (fun fingerprint time revoked hrevoke => ?_) ?_
  · obtain ⟨keys, -, rfl⟩ := Option.map_eq_some_iff.1 hrevoke
    rfl
  · rintro p edit rfl
    exact h q

theorem edits {c : Call} (h : c.SparesHeads) :
    Edits c.owner c.refreshed c.Reports .apart c.operation.program := by
  refine c.revises.edits (edit_namespaces h) fun outcome hnone hreports => ?_
  cases c with
  | append => cases hnone hreports
  | publish => cases hnone hreports
  | syncProfile =>
    obtain ⟨_, rfl⟩ := hreports
    cases hnone
  | _ => exact hreports

end Call
end SignedNames
