import Mathlib
import SignedNames.Proofs.AddressText
import SignedNames.Proofs.NameMap
import SignedNames.Proofs.ProfileEdits
import SignedNames.Proofs.SignatureBlocks
import SignedNames.Proofs.Verification

/-!
# The keys of publishers

A publisher registers its key under its own address, and what it signs is recovered to that key. Of
the curve two things are taken for granted, each for the key and the digest in question: recovery
inverts signing, and a public key is read back from its compressed form.
-/
namespace SignedNames

/-- What the curve has to do for a key and a digest. -/
structure Keypair.Invertible (k : Keypair) (digest : Block 32) : Prop where
  recovers : ∀ pair odd, Ecdsa.sign? k.secret digest = some (pair, odd) →
    Ecdsa.recover? pair odd digest = some k.point
  decodes : PublicKey.point? k.publicKey.block.bytes = some k.point

namespace Signature

variable (pair : Ecdsa.Pair) (odd : Bool)

lemma ofParts_eq : ofParts pair odd = ofBlocks (BigEndian.block 32 pair.r.value)
    (BigEndian.block 32 pair.s.value) (if odd then 28 else 27) := rfl

lemma oddOrdinate_ofParts : (ofParts pair odd).oddOrdinate = .ok odd := by
  rw [ofParts_eq, oddOrdinate, recoveryByte_ofBlocks]
  cases odd <;> rfl

lemma scalars_ofParts : (ofParts pair odd).scalars = .ok pair := by
  have hread (n : Ecdsa.Scalar) : BigEndian.value (BigEndian.digits 32 n.value) = n.value :=
    BigEndian.value_digits_of_lt (n.lt.trans Secp256k1.order_lt_range)
  rw [scalars_eq_ok_iff, second, ofParts_eq, firstBlock_ofBlocks, secondBlock_ofBlocks]
  exact ⟨(hread pair.r).symm, (hread pair.s).symm⟩

theorem parts_ofParts : (ofParts pair odd).parts = .ok (pair, odd) := by
  rw [parts, oddOrdinate_ofParts, scalars_ofParts]

end Signature

namespace Keypair

/-- What a key has signed is well formed and recovers to its account. -/
theorem recover_of_sign {k : Keypair} {digest : Block 32} (h : k.Invertible digest) {s : Signature}
    (hs : k.sign? digest = some s) : s.WellFormed ∧ s.recover digest = .account k.address := by
  obtain ⟨⟨pair, odd⟩, hsign, rfl⟩ := Option.map_eq_some_iff.1 hs
  have hparts := Signature.parts_ofParts pair odd
  exact ⟨(Signature.ofParts pair odd).exists_parts_iff.1 ⟨_, hparts⟩,
    Signature.recover_eq_account hparts (h.recovers pair odd hsign)⟩

end Keypair

/-- A link that completes a draft, signed with a key for its own account or for a wallet. -/
structure LinkDraft.Signed (d : LinkDraft) (k : Keypair) (wallet : Option Address)
    (chainId signedAt : UInt64) (l : Link) : Prop where
  version : l.body.schemaVersion = linkVersion
  chainId : l.body.chainId = chainId
  signer : l.body.signerAddress = wallet.getD k.address
  signedAt : l.body.signedAt = signedAt
  signature : k.sign? l.body.signingDigest = some l.signature

namespace LinkDraft

variable {d : LinkDraft} {k : Keypair} {wallet : Option Address} {chainId signedAt : UInt64}
  {nonce : Nonce}

lemma body_eq {signer : Address} {b : LinkBody} (h : d.body chainId signer signedAt nonce = .ok b) :
    b = ⟨linkVersion, d.name, d.payloadCid, d.encrypted, d.encryptionAlgorithm,
      d.encryptionKeyFingerprint, chainId, signer, signedAt, nonce⟩ := by
  simp only [body] at h
  generalize LinkBody.validate _ = valid at h
  cases valid with
  | error e => cases h
  | ok _ =>
    cases h
    rfl

lemma sign_eq {b : LinkBody} {s : Signature}
    (hbody : d.body chainId (wallet.getD k.address) signedAt nonce = .ok b)
    (hvalid : b.validate = .ok ()) (hsign : k.sign? b.signingDigest = some s) :
    d.sign (some k) wallet chainId signedAt nonce = .ok ⟨b, s⟩ := by
  rw [sign, hbody]
  change b.sign k = _
  rw [LinkBody.sign]
  -- The signature is made opaque here, or checking the match would compute it.
  generalize k.sign? b.signingDigest = signed at hsign ⊢
  rw [hvalid, hsign]

theorem signed_of_sign {l : Link} (h : d.sign (some k) wallet chainId signedAt nonce = .ok l) :
    d.Signed k wallet chainId signedAt l := by
  rw [sign] at h
  cases hbody : d.body chainId (wallet.getD k.address) signedAt nonce with
  | error e =>
    rw [hbody] at h
    cases h
  | ok b =>
    simp only [hbody, LinkBody.sign] at h
    cases hvalid : b.validate with
    | error e =>
      rw [hvalid] at h
      cases h
    | ok _ =>
      rw [hvalid] at h
      cases hsign : k.sign? b.signingDigest with
      | none =>
        rw [hsign] at h
        cases h
      | some s =>
        rw [hsign] at h
        cases h
        rw [body_eq hbody] at hsign ⊢
        exact ⟨rfl, rfl, rfl, rfl, hsign⟩

end LinkDraft

namespace Publisher

variable {p : Publisher}

theorem fingerprint_signingKey (hdecodes : PublicKey.point? p.keypair.publicKey.block.bytes =
    some p.keypair.point) (validFrom : UInt64) (validTo : Option UInt64) :
    (p.signingKey validFrom validTo).fingerprint = .ok p.owner := by
  cases hwallet : p.wallet with
  | some wallet =>
    simp only [signingKey, owner, SigningKey.fingerprint, hwallet, Option.map_some,
      Option.getD_some, Address.parse_text]
  | none =>
    have hread := Hex.decode_stripMark p.keypair.publicKey.block.bytes
    have haddress : ∃ fault, Address.parse p.keypair.publicKey.text = .error fault := by
      have hlength : Block.ofBytes? 20 p.keypair.publicKey.block.bytes = none := by
        rw [Block.ofBytes?, dif_neg]
        rw [p.keypair.publicKey.block.length_eq]
        decide
      refine ⟨.length p.keypair.publicKey.text, ?_⟩
      simp only [Address.parse, PublicKey.text, hread, hlength]
    have hkey : PublicKey.parse p.keypair.publicKey.text = .ok p.keypair.publicKey := by
      simp only [PublicKey.parse, PublicKey.text, hread, hdecodes]
      rfl
    have haccount : p.keypair.publicKey.address = .ok p.keypair.address := by
      simp only [PublicKey.address, hdecodes]
      rfl
    obtain ⟨fault, hfault⟩ := haddress
    simp only [signingKey, owner, SigningKey.fingerprint, hwallet, Option.map_none,
      Option.getD_none, hfault, hkey, haccount]
    rfl

theorem key?_keyEdit (hdecodes : PublicKey.point? p.keypair.publicKey.block.bytes =
    some p.keypair.point) (validFrom : UInt64) (validTo : Option UInt64) (q : Profile) :
    (p.keyEdit validFrom validTo q).key? p.owner = some (p.signingKey validFrom validTo) := by
  simp only [keyEdit, p.fingerprint_signingKey hdecodes]
  rw [Profile.key?, Profile.putKey, NameMap.get?_insert, if_pos rfl]

/-- A chain that can be asked about the publisher's signatures: nothing is at the account of a key,
and at a wallet there is one that follows the key. -/
def AnsweredBy (p : Publisher) (chainId : UInt64) (c : Chain) : Prop :=
  c.reachable = true ∧
    match p.wallet with
    | none => c.wallets.get? p.owner = none
    | some wallet => chainId = c.chainId ∧ wallet ∉ c.reverting ∧
      c.wallets.get? wallet = some (.owned p.keypair.address)

/-- What the publisher has signed is authentic. -/
lemma authentic_of_signed {d : LinkDraft} {chainId signedAt : UInt64} {l : Link}
    (hsigned : d.Signed p.keypair p.wallet chainId signedAt l)
    (hrecovered : l.recovered = .account p.keypair.address) {c : Chain}
    (hchain : p.AnsweredBy chainId c) : Verifier.Authentic c l ∧
      ∀ w, c.wallets.get? l.body.signerAddress = some w → ∃ owner, w = .owned owner := by
  obtain ⟨-, hchain⟩ := hchain
  have hsigner : l.body.signerAddress = p.owner := hsigned.signer
  cases hwallet : p.wallet with
  | none =>
    have hempty : c.wallets.get? p.owner = none := by simpa only [hwallet] using hchain
    have howner : p.owner = p.keypair.address := by rw [owner, hwallet, Option.getD_none]
    refine ⟨.inl ⟨.inr (hsigner ▸ hempty), ?_⟩, ?_⟩
    · rw [hsigner, howner]
      exact hrecovered
    · rw [hsigner, hempty]
      rintro _ ⟨⟩
  | some wallet =>
    obtain ⟨hid, hcalls, hdeployed⟩ : chainId = c.chainId ∧ wallet ∉ c.reverting ∧
        c.wallets.get? wallet = some (.owned p.keypair.address) := by
      simpa only [hwallet] using hchain
    have howner : p.owner = wallet := by rw [owner, hwallet, Option.getD_some]
    rw [← howner, ← hsigner] at hcalls hdeployed
    refine ⟨.inr ⟨hsigned.chainId.trans hid, hcalls, _, hdeployed, hrecovered⟩, ?_⟩
    rw [hdeployed]
    exact fun w hw => ⟨_, (Option.some.inj hw).symm⟩

end Publisher

structure Verification.Passed (v : Verification) : Prop where
  verdict : v.report.verdict = .valid
  keyStatus : v.keyStatus = .active
  trusted : v.trusted = true

/-- A link that a publisher has signed passes against every profile that holds its key, if the key
was active then. -/
theorem Publisher.exists_passed {p : Publisher} {d : LinkDraft} {chainId signedAt : UInt64}
    {l : Link} (hsigned : d.Signed p.keypair p.wallet chainId signedAt l)
    (hinvertible : p.keypair.Invertible l.body.signingDigest) {c : Chain}
    (hchain : p.AnsweredBy chainId c) {q : Profile} {k : SigningKey}
    (hkey : q.key? p.owner = some k) (hactive : k.ActiveAt signedAt) (requireRegisteredKey : Bool) :
    ∃ v, (Verifier.verifyFor requireRegisteredKey c q l).1 = .ok v ∧ v.Passed := by
  obtain ⟨hform, hrecovered⟩ := Keypair.recover_of_sign hinvertible hsigned.signature
  obtain ⟨hauthentic, howned⟩ := Publisher.authentic_of_signed hsigned hrecovered hchain
  obtain ⟨report, hreport⟩ := Verifier.exists_verify hsigned.version hform fun _ => hchain.1
  obtain ⟨v, hv⟩ : ∃ v, (Verifier.verifyFor requireRegisteredKey c q l).1 = .ok v := by
    simp only [Verifier.verifyFor, hreport]
    exact ⟨_, rfl⟩
  obtain ⟨hreport', hstatus, htrusted⟩ := Verifier.verifyFor_ok hv
  have rules := Verifier.verify_rules c l
  rw [hreport'] at rules
  have hvalid := (Verifier.valid_iff_authentic howned rules).2 hauthentic
  have hkey' : ∃ k, q.key? l.body.signerAddress = some k ∧ k.ActiveAt l.body.signedAt := by
    rw [hsigned.signer, hsigned.signedAt]
    exact ⟨k, hkey, hactive⟩
  refine ⟨v, hv, hvalid, ?_, htrusted.2 ⟨hvalid, .inl hkey'⟩⟩
  rw [hstatus]
  exact (q.keyStatus_eq_active_iff _ _).2 hkey'

end SignedNames
