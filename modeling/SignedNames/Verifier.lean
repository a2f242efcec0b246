import SignedNames.Chain.State
import SignedNames.Profile

/-!
# Verification

Decides whether a signed link is valid, and whether it is to be trusted. A signer without a contract
must be the account that the signature recovers to; a contract wallet is asked. Links of other
chains can only be checked by recovery. A wrong signature is a verdict; an error means that there is
none.
-/
namespace SignedNames

inductive VerifyError
  | malformedSignature (fault : Signature.Fault)
  | unsupportedVersion (version : UInt8)
  | unavailable (cause : ChainError)
deriving DecidableEq

namespace VerifyError

def message : VerifyError → String
  | .malformedSignature fault => "malformed signature: " ++ (FormatFault.signature fault).message
  | .unsupportedVersion version => "unsupported link schema version " ++ toString version.toNat
  | .unavailable cause => "verification unavailable: " ++ cause.message

def transient : VerifyError → Bool
  | .unavailable _ => true
  | _ => false

end VerifyError

inductive SignerKind
  | account
  | contractWallet
deriving DecidableEq

inductive Verdict
  | valid
  | signerMismatch (recovered : Address)
  | unrecoverable
  | contractRejected
  | contractReverted
  /-- Bound to another chain, and not made by the account it names. -/
  | chainMismatch (linkChain verifierChain : UInt64)
deriving DecidableEq

structure Report where
  signer : Address
  kind : SignerKind
  verdict : Verdict
deriving DecidableEq

structure Verification where
  report : Report
  keyStatus : KeyStatus
  /-- The signature is valid and the key acceptable. -/
  trusted : Bool
deriving DecidableEq

namespace Verifier

def recoveryVerdict (l : Link) : Except VerifyError Verdict :=
  match l.recovered with
  | .malformed fault => .error (.malformedSignature fault)
  | .unrecoverable => .ok .unrecoverable
  | .account address =>
    .ok (if address = l.body.signerAddress then .valid else .signerMismatch address)

def walletVerdict : CallOutcome → Verdict
  | .returned data => if Calldata.Accepts data then .valid else .contractRejected
  | .reverted => .contractReverted

def foreignVerdict (chainId : UInt64) (l : Link) : Except VerifyError Verdict :=
  (recoveryVerdict l).map fun
    | .valid => .valid
    | _ => .chainMismatch l.body.chainId chainId

/-- The report on a link. The version is looked at first, then the form of the signature. -/
def verify (c : Chain) (l : Link) : Except VerifyError Report × Chain :=
  let signer := l.body.signerAddress
  let reportOf (kind : SignerKind) (verdict : Verdict) : Report := ⟨signer, kind, verdict⟩
  if l.body.schemaVersion ≠ linkVersion then
    (.error (.unsupportedVersion l.body.schemaVersion), c)
  else
    match l.signature.fault? with
    | some fault => (.error (.malformedSignature fault), c)
    | none =>
      if l.body.chainId ≠ c.chainId then
        ((foreignVerdict c.chainId l).map (reportOf .account), c)
      else
        match c.hasCode signer with
        | .error cause => (.error (.unavailable cause), c)
        | .ok false => ((recoveryVerdict l).map (reportOf .account), c)
        | .ok true =>
          let data := Calldata.encode l.body.signingDigest l.signature.block.bytes
          match c.call signer data with
          | (.error cause, c) => (.error (.unavailable cause), c)
          | (.ok outcome, c) => (.ok (reportOf .contractWallet (walletVerdict outcome)), c)

def acceptableKey (requireRegisteredKey : Bool) : KeyStatus → Bool
  | .active => true
  | .notRegistered => !requireRegisteredKey
  | _ => false

def verifyFor (requireRegisteredKey : Bool) (c : Chain) (p : Profile) (l : Link) :
    Except VerifyError Verification × Chain :=
  let (report, c) := verify c l
  let standing := p.keyStatus l.body.signerAddress l.body.signedAt
  (report.map fun r =>
    ⟨r, standing, decide (r.verdict = .valid) && acceptableKey requireRegisteredKey standing⟩, c)

/-- Verifies links one after the other, up to the first that has no verdict. -/
def verifyAll (requireRegisteredKey : Bool) (c : Chain) (p : Profile) :
    List Link → Except VerifyError (List (Link × Verification)) × Chain
  | [] => (.ok [], c)
  | l :: rest =>
    match verifyFor requireRegisteredKey c p l with
    | (.error e, c) => (.error e, c)
    | (.ok verification, c) =>
      let (more, c) := verifyAll requireRegisteredKey c p rest
      (more.map ((l, verification) :: ·), c)

end Verifier
end SignedNames
