import SignedNames.Operation

/-!
# Publishers

A publisher appends links to the namespaces of one owner. An append stores a chunk on top of the
head it has seen and then swaps the index; if another append came first, the links are put into a
new chunk on top of the new head. The chunk is always stored before the index points to it. An
append counts as soon as the index is swapped; the profile follows, and may be brought up to date
later.
-/
namespace SignedNames

structure Publisher where
  keypair : Keypair
  /-- The contract wallet that the key publishes for, if not for its own account. -/
  wallet : Option Address
  settings : PublisherSettings

structure Receipt where
  chunk : Cid
  index : NameIndex
  /-- How many swaps were tried. -/
  attempts : Nat
  /-- Whether the profile points to the new chunk. -/
  profileSynced : Bool

structure Edited (β : Type) where
  profile : Versioned Profile
  answer : β
  /-- How often the edit ran. -/
  runs : Nat

namespace Publisher

def owner (p : Publisher) : Address := p.wallet.getD p.keypair.address

def sign (p : Publisher) (d : LinkDraft) (time : UInt64) (nonce : Nonce) : Except DataError Link :=
  d.sign (some p.keypair) p.wallet p.settings.chainId time nonce

/-- Brings the head of a namespace in a profile up to date with its index. -/
def refresh (p : Publisher) (profile : Profile) : Option String → Operation Profile
  | none => return profile
  | some namespaceName => do
    match ← Operation.ask (.loadIndex p.owner namespaceName) with
    | some index => return profile.setHead namespaceName index.head
    | none => return profile

/-- Edits the profile at most `attempts` more times, each time the latest one. The index is read
after the profile, so that a swap that wins carries a head at least as new as any earlier winner's.
An edit answers something besides; the answer of the run that wins counts. -/
def editProfileTimes {β : Type} (p : Publisher) (refreshed : Option String)
    (edit : Profile → Profile × β) : (attempts : Nat) → Operation (Edited β)
  | 0 => Operation.fail (.profileConflicts p.settings.maxAttempts)
  | attempts + 1 => do
    let current ← Operation.ask (.loadProfile p.owner)
    let expected := current.map (·.revision)
    let profile ← p.refresh ((current.map (·.value)).getD .empty) refreshed
    let (next, answer) := edit profile
    match ← Operation.ask (.swapProfile p.owner expected next) with
    | .swapped =>
      return ⟨⟨next, expected.getD 0 + 1⟩, answer, p.settings.maxAttempts - attempts⟩
    | .conflict _ => editProfileTimes p refreshed edit attempts

def editProfile {β : Type} (p : Publisher) (refreshed : Option String)
    (edit : Profile → Profile × β) : Operation (Edited β) :=
  p.editProfileTimes refreshed edit p.settings.maxAttempts

def updateProfile (p : Publisher) (edit : Profile → Profile) : Operation (Edited Unit) :=
  p.editProfile none fun profile => (edit profile, ())

def syncProfile (p : Publisher) (namespaceName : String) : Operation Unit :=
  (fun _ => ()) <$> p.editProfile (some namespaceName) fun profile => (profile, ())

def signingKey (p : Publisher) (validFrom : UInt64) (validTo : Option UInt64) : SigningKey :=
  ⟨(p.wallet.map (·.text)).getD p.keypair.publicKey.text, validFrom, validTo, none⟩

def registerKey (p : Publisher) (validFrom : UInt64) (validTo : Option UInt64) :
    Operation Address := do
  let key := p.signingKey validFrom validTo
  let fingerprint ← Operation.check key.fingerprint
  let _ ← p.updateProfile fun profile => profile.putKey fingerprint key
  return fingerprint

/-- Revokes a key from a time on. Whether there is such a key shows only after the profile was
swapped. -/
def revokeKey (p : Publisher) (fingerprint : String) (time : UInt64) : Operation Unit := do
  let edited ← p.editProfile none fun profile =>
    match profile.revoke? fingerprint time with
    | some revoked => (revoked, true)
    | none => (profile, false)
  if edited.answer then return () else Operation.fail (.misuse (.unknownFingerprint fingerprint))

/-- Appends links on top of the observed index, at most `attempts` more times. -/
def appendTimes (p : Publisher) (namespaceName : String) (links : List Link) :
    (attempts : Nat) → (observed : Option NameIndex) → Operation Receipt
  | 0, _ => Operation.fail (.appendConflicts namespaceName p.settings.maxAttempts)
  | attempts + 1, observed => do
    let expected := observed.map (·.head)
    let chunk : Chunk := ⟨expected, links⟩
    let cid ← Operation.access (Access.putChunk chunk)
    let next := NameIndex.advance observed cid chunk
    match ← Operation.ask (.swapIndex p.owner namespaceName expected next) with
    | .swapped =>
      let synced ← (p.syncProfile namespaceName).attempt
      return ⟨cid, next, p.settings.maxAttempts - attempts, synced matches .ok _⟩
    | .conflict current => appendTimes p namespaceName links attempts current

/-- Appends links in one chunk. All links are checked before anything is read or written. -/
def append (p : Publisher) (namespaceName : String) (links : List Link) : Operation Receipt := do
  if links.isEmpty then Operation.fail (.misuse .emptyBatch)
  Operation.check (links.forM fun l => l.body.validate)
  let observed ← Operation.ask (.loadIndex p.owner namespaceName)
  p.appendTimes namespaceName links p.settings.maxAttempts observed

def publish (p : Publisher) (namespaceName : String) (d : LinkDraft) (time : UInt64)
    (nonce : Nonce) : Operation (Link × Receipt) := do
  let link ← Operation.check (p.sign d time nonce)
  let receipt ← p.append namespaceName [link]
  return (link, receipt)

end Publisher
end SignedNames
