import Mathlib
import SignedNames.Proofs.Calldata
import SignedNames.Proofs.SignatureBlocks
import SignedNames.Proofs.SigningKeys
import SignedNames.Verifier

/-!
# Verdicts and trust

A link is checked in a fixed order: its version, the form of its signature, then the signature
itself, by recovery or by the wallet at its signer. The rules that this follows are stated once, and
everything else is read off them: when there is no verdict, and when a link is trusted.
-/
namespace SignedNames

def Ecdsa.IsScalar (n : Nat) : Prop := 0 < n ∧ n < Secp256k1.order

namespace Signature

/-- The last byte tells the parity of an ordinate, and both numbers are scalars. -/
structure WellFormed (s : Signature) : Prop where
  recoveryByte : s.recoveryByte ∈ [0, 1, 27, 28]
  r : Ecdsa.IsScalar (BigEndian.value (s.block.bytes.take 32))
  s : Ecdsa.IsScalar (BigEndian.value ((s.block.bytes.drop 32).take 32))

variable (s : Signature)

lemma exists_oddOrdinate_iff :
    (∃ odd, s.oddOrdinate = .ok odd) ↔ s.recoveryByte ∈ [0, 1, 27, 28] := by
  simp only [oddOrdinate, List.mem_cons, List.not_mem_nil, or_false]
  split
  · rename_i h
    exact ⟨fun _ => by tauto, fun _ => ⟨_, rfl⟩⟩
  · split
    · rename_i h
      exact ⟨fun _ => by tauto, fun _ => ⟨_, rfl⟩⟩
    · exact ⟨nofun, by tauto⟩

lemma exists_scalars_iff : (∃ pair, s.scalars = .ok pair) ↔
    Ecdsa.IsScalar (BigEndian.value (s.block.bytes.take 32)) ∧
      Ecdsa.IsScalar (BigEndian.value ((s.block.bytes.drop 32).take 32)) := by
  constructor
  · rintro ⟨⟨r, t⟩, h⟩
    obtain ⟨hr, ht⟩ := scalars_eq_ok_iff.1 h
    change Ecdsa.IsScalar (BigEndian.value s.firstBlock.bytes) ∧ Ecdsa.IsScalar s.second
    rw [← hr, ← ht]
    exact ⟨⟨r.pos, r.lt⟩, t.pos, t.lt⟩
  · rintro ⟨hr, ht⟩
    exact ⟨⟨⟨_, hr.1, hr.2⟩, _, ht.1, ht.2⟩, scalars_eq_ok_iff.2 ⟨rfl, rfl⟩⟩

theorem exists_parts_iff : (∃ parts, s.parts = .ok parts) ↔ s.WellFormed := by
  constructor
  · rintro ⟨⟨pair, odd⟩, hparts⟩
    obtain ⟨hodd, hscalars⟩ := parts_eq_ok_iff.1 hparts
    obtain ⟨hr, hs⟩ := s.exists_scalars_iff.1 ⟨pair, hscalars⟩
    exact ⟨s.exists_oddOrdinate_iff.1 ⟨odd, hodd⟩, hr, hs⟩
  · intro h
    obtain ⟨odd, hodd⟩ := s.exists_oddOrdinate_iff.2 h.recoveryByte
    obtain ⟨pair, hscalars⟩ := s.exists_scalars_iff.2 ⟨h.r, h.s⟩
    exact ⟨(pair, odd), parts_eq_ok_iff.2 ⟨hodd, hscalars⟩⟩

theorem fault?_eq_none_iff : s.fault? = none ↔ s.WellFormed := by
  rw [← s.exists_parts_iff, fault?]
  cases s.parts with
  | error fault => exact ⟨nofun, nofun⟩
  | ok parts => exact ⟨fun _ => ⟨parts, rfl⟩, fun _ => rfl⟩

variable {s}

lemma WellFormed.recover_ne_malformed (h : s.WellFormed) (digest : Block 32) (fault : Fault) :
    s.recover digest ≠ .malformed fault := by
  obtain ⟨⟨pair, odd⟩, hparts⟩ := s.exists_parts_iff.2 h
  simp only [recover, hparts]
  split <;> nofun

lemma recover_eq_account {pair : Ecdsa.Pair} {odd : Bool} {digest : Block 32}
    {point : Secp256k1.Point} (hparts : s.parts = .ok (pair, odd))
    (h : Ecdsa.recover? pair odd digest = some point) :
    s.recover digest = .account (Address.ofPoint point) := by
  rw [recover, hparts]
  simp only [h]

end Signature

lemma Wallet.check_owned (owner : Address) (digest : Block 32) (s : Signature) :
    (owned owner).check digest s.block.bytes =
      if s.recover digest = .account owner then .returned Calldata.acceptance
      else .returned (List.replicate 32 0) := by
  have hread : Signature.ofBytes s.block.bytes = .ok s := by
    rw [Signature.ofBytes, Block.ofBytes?_bytes]
  simp only [owned, hread]

namespace Verifier

lemma walletVerdict_acceptance : walletVerdict (.returned Calldata.acceptance) = .valid := by decide

lemma walletVerdict_zeros :
    walletVerdict (.returned (List.replicate 32 0)) = .contractRejected := by decide

/-- A wallet accepts the signatures that recover to its owner, and rejects all others. -/
theorem walletVerdict_owned (owner : Address) (digest : Block 32) (s : Signature) :
    walletVerdict ((Wallet.owned owner).check digest s.block.bytes) =
      if s.recover digest = .account owner then .valid else .contractRejected := by
  rw [Wallet.check_owned]
  split
  · exact walletVerdict_acceptance
  · exact walletVerdict_zeros

end Verifier

/-- What a wallet is asked is what it gets to see. -/
theorem Chain.outcome_encode {c : Chain} {address : Address} {w : Wallet}
    (deployed : c.wallets.get? address = some w) (calls : address ∉ c.reverting)
    (digest : Block 32) (s : Signature) :
    c.outcome address (Calldata.encode digest s.block.bytes) = w.check digest s.block.bytes := by
  have hlength : (Calldata.encode digest s.block.bytes ++ []).length < UInt64.size := by
    rw [List.append_nil, Calldata.length_encode, s.block.length_eq]
    decide
  have hdecode := Calldata.decode_append digest hlength
  rw [List.append_nil] at hdecode
  simp only [outcome, if_neg calls, deployed, hdecode]

namespace Verifier

/-- The outcomes of checking a link, in the order in which they are decided. -/
inductive Rules (c : Chain) (l : Link) : Except VerifyError Report → Prop
  | unsupported (version : l.body.schemaVersion ≠ linkVersion) :
    Rules c l (.error (.unsupportedVersion l.body.schemaVersion))
  | malformed (fault : Signature.Fault) (version : l.body.schemaVersion = linkVersion)
    (form : ¬l.signature.WellFormed) : Rules c l (.error (.malformedSignature fault))
  /-- Checked by recovery, because the link is bound to another chain. -/
  | foreign (verdict : Verdict) (version : l.body.schemaVersion = linkVersion)
    (form : l.signature.WellFormed) (apart : l.body.chainId ≠ c.chainId)
    (hverdict : verdict = .valid ↔ l.recovered = .account l.body.signerAddress) :
    Rules c l (.ok ⟨l.body.signerAddress, .account, verdict⟩)
  | unavailable (version : l.body.schemaVersion = linkVersion) (form : l.signature.WellFormed)
    (own : l.body.chainId = c.chainId) (outage : c.reachable = false) :
    Rules c l (.error (.unavailable .unreachable))
  /-- Checked by recovery, because no wallet is at the signer. -/
  | account (verdict : Verdict) (version : l.body.schemaVersion = linkVersion)
    (form : l.signature.WellFormed) (own : l.body.chainId = c.chainId)
    (reachable : c.reachable = true) (deployed : c.wallets.get? l.body.signerAddress = none)
    (hverdict : verdict = .valid ↔ l.recovered = .account l.body.signerAddress) :
    Rules c l (.ok ⟨l.body.signerAddress, .account, verdict⟩)
  | wallet (w : Wallet) (version : l.body.schemaVersion = linkVersion)
    (form : l.signature.WellFormed) (own : l.body.chainId = c.chainId)
    (reachable : c.reachable = true) (deployed : c.wallets.get? l.body.signerAddress = some w) :
    Rules c l (.ok ⟨l.body.signerAddress, .contractWallet, walletVerdict (c.outcome
      l.body.signerAddress (Calldata.encode l.body.signingDigest l.signature.block.bytes))⟩)

lemma exists_recoveryVerdict {l : Link} (form : l.signature.WellFormed) : ∃ verdict,
    recoveryVerdict l = .ok verdict ∧
      (verdict = .valid ↔ l.recovered = .account l.body.signerAddress) := by
  rw [recoveryVerdict]
  cases hrecovered : l.recovered with
  | malformed fault => exact absurd hrecovered (form.recover_ne_malformed _ _)
  | unrecoverable => exact ⟨_, rfl, nofun, nofun⟩
  | account address =>
    refine ⟨_, rfl, ?_⟩
    split <;> simp [*]

lemma exists_foreignVerdict {l : Link} (form : l.signature.WellFormed) (chainId : UInt64) :
    ∃ verdict, foreignVerdict chainId l = .ok verdict ∧
      (verdict = .valid ↔ l.recovered = .account l.body.signerAddress) := by
  obtain ⟨verdict, hverdict, hvalid⟩ := exists_recoveryVerdict form
  rw [← hvalid, foreignVerdict, hverdict]
  refine ⟨_, rfl, ?_⟩
  cases verdict <;> simp

theorem verify_rules (c : Chain) (l : Link) : Rules c l (verify c l).1 := by
  rw [verify]
  by_cases version : l.body.schemaVersion = linkVersion
  · rw [if_neg (not_not.2 version)]
    cases hfault : l.signature.fault? with
    | some fault =>
      refine .malformed fault version fun form => ?_
      rw [l.signature.fault?_eq_none_iff.2 form] at hfault
      cases hfault
    | none =>
      have form := l.signature.fault?_eq_none_iff.1 hfault
      by_cases own : l.body.chainId = c.chainId
      · rw [if_neg (not_not.2 own)]
        cases reachable : c.reachable with
        | false =>
          simp only [Chain.hasCode, reachable]
          exact .unavailable version form own reachable
        | true =>
          cases deployed : c.wallets.get? l.body.signerAddress with
          | none =>
            obtain ⟨verdict, hverdict, hvalid⟩ := exists_recoveryVerdict form
            simp only [Chain.hasCode, reachable, deployed, hverdict]
            exact .account verdict version form own reachable deployed hvalid
          | some w =>
            simp only [Chain.hasCode, Chain.call, reachable, deployed]
            exact .wallet w version form own reachable deployed
      · rw [if_pos own]
        obtain ⟨verdict, hverdict, hvalid⟩ := exists_foreignVerdict form c.chainId
        rw [hverdict]
        exact .foreign verdict version form own hvalid
  · rw [if_pos version]
    exact .unsupported version

lemma exists_verify {c : Chain} {l : Link} (version : l.body.schemaVersion = linkVersion)
    (form : l.signature.WellFormed) (reachable : l.body.chainId = c.chainId → c.reachable = true) :
    ∃ report, (verify c l).1 = .ok report := by
  have rules := verify_rules c l
  generalize (verify c l).1 = outcome at rules
  cases rules with
  | unsupported version' => exact absurd version version'
  | malformed fault _ form' => exact absurd form form'
  | unavailable _ _ own outage =>
    rw [reachable own] at outage
    cases outage
  | _ => exact ⟨_, rfl⟩

/-- What is true of a link that is checked on a chain: there is an error exactly when one is due, in
this order, and a verdict in all other cases. -/
structure FailsWhenDue (c : Chain) (l : Link) : Prop where
  unsupported : ∀ version, (verify c l).1 = .error (.unsupportedVersion version) ↔
    l.body.schemaVersion ≠ 1 ∧ l.body.schemaVersion = version
  malformed : (∃ fault, (verify c l).1 = .error (.malformedSignature fault)) ↔
    l.body.schemaVersion = 1 ∧ ¬l.signature.WellFormed
  unavailable : (∃ cause, (verify c l).1 = .error (.unavailable cause)) ↔
    l.body.schemaVersion = 1 ∧ l.signature.WellFormed ∧ l.body.chainId = c.chainId ∧
      c.reachable = false
  verdict : (∃ report, (verify c l).1 = .ok report) ↔
    l.body.schemaVersion = 1 ∧ l.signature.WellFormed ∧
      (l.body.chainId = c.chainId → c.reachable = true)
  /-- Nothing of the chain but its identifier counts for a link of another chain. -/
  foreign : l.body.chainId ≠ c.chainId → ∀ c' : Chain, c'.chainId = c.chainId →
    (verify c' l).1 = (verify c l).1

lemma verify_of_foreign {c c' : Chain} {l : Link} (apart : l.body.chainId ≠ c.chainId)
    (same : c'.chainId = c.chainId) : (verify c' l).1 = (verify c l).1 := by
  simp only [verify, same, if_pos apart]
  split
  · rfl
  · split <;> rfl

/-- Checking a link fails exactly when it may, whatever its signature, the wallets and the state of
the chain are. -/
theorem verify_fails_when_due (c : Chain) (l : Link) : FailsWhenDue c l := by
  have rules := verify_rules c l
  have hone : (1 : UInt8) = linkVersion := rfl
  refine ⟨fun version => ?_, ?_, ?_, ?_, fun apart c' same => verify_of_foreign apart same⟩
  all_goals
    rw [hone]
    clear hone
    generalize (verify c l).1 = outcome at rules
  · cases rules <;> simp [*]
  · cases rules <;> simp [*]
  · cases rules with
    | unavailable version form own outage =>
      exact ⟨fun _ => ⟨version, form, own, outage⟩, fun _ => ⟨_, rfl⟩⟩
    | _ => simp [*]
  · cases rules <;> simp [*]

/-- The signature of a link is made by the account that it names, or by the owner of the wallet
there if the chain can be asked about it. -/
def Authentic (c : Chain) (l : Link) : Prop :=
  ((l.body.chainId ≠ c.chainId ∨ c.wallets.get? l.body.signerAddress = none) ∧
      l.recovered = .account l.body.signerAddress) ∨
    (l.body.chainId = c.chainId ∧ l.body.signerAddress ∉ c.reverting ∧ ∃ owner,
      c.wallets.get? l.body.signerAddress = some (.owned owner) ∧ l.recovered = .account owner)

/-- The key of the signer was active when the link was signed; a key may also be missing where none
is required. -/
def KeyAccepted (requireRegisteredKey : Bool) (p : Profile) (l : Link) : Prop :=
  (∃ k, p.key? l.body.signerAddress = some k ∧ k.ActiveAt l.body.signedAt) ∨
    (p.key? l.body.signerAddress = none ∧ requireRegisteredKey = false)

/-- Wallets that can be called answer what recovery against their owner says. -/
def AsksOwners (c : Chain) : Prop :=
  ∀ address owner, c.wallets.get? address = some (.owned owner) → address ∉ c.reverting →
    ∀ (digest : Block 32) (s : Signature),
      walletVerdict (c.outcome address (Calldata.encode digest s.block.bytes)) = .valid ↔
        s.recover digest = .account owner

theorem asksOwners (c : Chain) : AsksOwners c := by
  intro address owner deployed calls digest s
  rw [Chain.outcome_encode deployed calls, walletVerdict_owned]
  split <;> simp [*]

lemma walletVerdict_of_reverting {c : Chain} {address : Address} (h : address ∈ c.reverting)
    (data : Bytes) : walletVerdict (c.outcome address data) = .contractReverted := by
  rw [Chain.outcome, if_pos h]
  rfl

theorem valid_iff_authentic {c : Chain} {l : Link} {report : Report}
    (owned : ∀ w, c.wallets.get? l.body.signerAddress = some w → ∃ owner, w = .owned owner)
    (rules : Rules c l (.ok report)) : report.verdict = .valid ↔ Authentic c l := by
  cases rules with
  | foreign verdict version form apart hverdict =>
    rw [hverdict]
    exact ⟨fun h => .inl ⟨.inl apart, h⟩, fun h => h.elim And.right fun h => absurd h.1 apart⟩
  | account verdict version form own reachable deployed hverdict =>
    rw [hverdict]
    refine ⟨fun h => .inl ⟨.inr deployed, h⟩, ?_⟩
    rintro (⟨-, h⟩ | ⟨-, -, owner, deployed', -⟩)
    · exact h
    · rw [deployed] at deployed'
      cases deployed'
  | wallet w version form own reachable deployed =>
    obtain ⟨owner, rfl⟩ := owned w deployed
    by_cases calls : l.body.signerAddress ∈ c.reverting
    · rw [walletVerdict_of_reverting calls]
      refine ⟨nofun, ?_⟩
      rintro (⟨apart | missing, -⟩ | ⟨-, calls', -⟩)
      · exact absurd own apart
      · rw [deployed] at missing
        cases missing
      · exact absurd calls calls'
    · constructor
      · exact fun h => .inr ⟨own, calls, owner, deployed, (asksOwners c _ _ deployed calls _ _).1 h⟩
      · rintro (⟨apart | missing, -⟩ | ⟨-, -, owner', deployed', h⟩)
        · exact absurd own apart
        · rw [deployed] at missing
          cases missing
        · exact (asksOwners c _ _ deployed' calls _ _).2 h

theorem acceptableKey_iff (requireRegisteredKey : Bool) (p : Profile) (l : Link) :
    acceptableKey requireRegisteredKey (p.keyStatus l.body.signerAddress l.body.signedAt) = true ↔
      KeyAccepted requireRegisteredKey p l := by
  rw [KeyAccepted, ← Profile.keyStatus_eq_active_iff, ← Profile.keyStatus_eq_notRegistered_iff]
  cases p.keyStatus l.body.signerAddress l.body.signedAt <;> simp [acceptableKey]

lemma verifyFor_ok {requireRegisteredKey : Bool} {c : Chain} {p : Profile} {l : Link}
    {v : Verification} (h : (verifyFor requireRegisteredKey c p l).1 = .ok v) :
    (verify c l).1 = .ok v.report ∧ v.keyStatus = p.keyStatus l.body.signerAddress l.body.signedAt ∧
      (v.trusted = true ↔ v.report.verdict = .valid ∧ KeyAccepted requireRegisteredKey p l) := by
  rw [← acceptableKey_iff]
  simp only [verifyFor] at h
  cases hreport : (verify c l).1 with
  | error e =>
    rw [hreport] at h
    cases h
  | ok report =>
    rw [hreport] at h
    cases h
    simp

/-- On a chain whose wallets follow their owners, the links that are trusted are those that are
authentic and whose key is accepted. -/
theorem trusted_iff {requireRegisteredKey : Bool} {c : Chain} {p : Profile} {l : Link}
    {v : Verification}
    (owned : ∀ address w, c.wallets.get? address = some w → ∃ owner, w = .owned owner)
    (h : (verifyFor requireRegisteredKey c p l).1 = .ok v) :
    (v.trusted = true ↔ Authentic c l ∧ KeyAccepted requireRegisteredKey p l) ∧ AsksOwners c := by
  obtain ⟨hreport, -, htrusted⟩ := verifyFor_ok h
  have rules := verify_rules c l
  rw [hreport] at rules
  rw [htrusted, valid_iff_authentic (owned _) rules]
  exact ⟨Iff.rfl, asksOwners c⟩

def generatorAccount : Address :=
  ⟨⟨[126, 95, 69, 82, 9, 26, 105, 18, 93, 93, 252, 183, 184, 194, 101, 144, 41, 57, 91, 223], rfl⟩⟩

lemma ofPoint_generator : Address.ofPoint Secp256k1.generator = generatorAccount := by
  decide +kernel

/-- A link that this account has signed for a wallet. -/
def signedLink : Link where
  body := ⟨1, "Größe", "Qm1", false, none, none, 1, ⟨.replicate 20 0xaa⟩, 0, ⟨.replicate 16 1⟩⟩
  signature := ⟨⟨[221, 246, 185, 58, 29, 36, 119, 14, 133, 204, 68, 3, 214, 156, 166, 22, 85, 116,
    119, 108, 235, 120, 137, 194, 67, 218, 107, 146, 191, 126, 142, 143, 76, 12, 231, 130, 4, 108,
    216, 2, 14, 178, 3, 11, 213, 43, 14, 205, 137, 226, 209, 40, 145, 223, 75, 21, 28, 31, 181, 84,
    73, 42, 214, 82, 27], rfl⟩⟩

def signedLinkDigest : Block 32 :=
  ⟨[55, 178, 190, 101, 70, 91, 23, 229, 242, 131, 101, 163, 147, 65, 132, 43, 157, 98, 102, 223,
    164, 219, 143, 175, 188, 55, 39, 4, 28, 14, 151, 64], rfl⟩

lemma signingDigest_signedLink : signedLink.body.signingDigest = signedLinkDigest := by
  decide +kernel

lemma signedLink_wellFormed : signedLink.signature.WellFormed :=
  signedLink.signature.fault?_eq_none_iff.1 (by decide +kernel)

lemma recovered_signedLink : signedLink.recovered = .account generatorAccount := by
  rw [Link.recovered, signingDigest_signedLink, ← ofPoint_generator]
  obtain ⟨⟨pair, odd⟩, hparts⟩ := signedLink.signature.exists_parts_iff.2 signedLink_wellFormed
  refine Signature.recover_eq_account hparts ?_
  have hrecover : (signedLink.signature.parts.toOption.bind fun parts =>
      Ecdsa.recover? parts.1 parts.2 signedLinkDigest) = some Secp256k1.generator := by
    decide +kernel
  rw [hparts] at hrecover
  exact hrecover

def walletChain : Chain :=
  (Chain.ofId 1).deploy signedLink.body.signerAddress (.owned generatorAccount)

lemma deployed_walletChain : walletChain.wallets.get? signedLink.body.signerAddress =
    some (.owned generatorAccount) := by
  rw [walletChain, Chain.deploy, Table.get?_set, if_pos rfl]

lemma walletChain_owned (address : Address) (w : Wallet)
    (h : walletChain.wallets.get? address = some w) : ∃ owner, w = .owned owner := by
  rw [walletChain, Chain.deploy, Table.get?_set] at h
  split at h
  · exact ⟨_, (Option.some.inj h).symm⟩
  · cases h

theorem signedLink_trusted :
    (∀ address w, walletChain.wallets.get? address = some w → ∃ owner, w = .owned owner) ∧
      ∃ v, (verifyFor false walletChain .empty signedLink).1 = .ok v ∧ v.trusted = true ∧
        (v.trusted = true ↔ Authentic walletChain signedLink ∧
          KeyAccepted false .empty signedLink) ∧ AsksOwners walletChain := by
  obtain ⟨report, hreport⟩ := exists_verify rfl signedLink_wellFormed (c := walletChain)
    fun _ => rfl
  obtain ⟨v, hv⟩ : ∃ v, (verifyFor false walletChain .empty signedLink).1 = .ok v := by
    simp only [verifyFor, hreport]
    exact ⟨_, rfl⟩
  have hresult := trusted_iff walletChain_owned hv
  have hauthentic : Authentic walletChain signedLink :=
    .inr ⟨rfl, List.not_mem_nil, generatorAccount, deployed_walletChain, recovered_signedLink⟩
  exact ⟨walletChain_owned, v, hv, hresult.1.2 ⟨hauthentic, .inr ⟨rfl, rfl⟩⟩, hresult⟩

end Verifier
end SignedNames
