import SignedNames.Chain.Calldata
import SignedNames.Identity.Signature
import SignedNames.Table

/-!
# Chains

The part of a chain that verification asks: which addresses hold a wallet contract, and what a
wallet answers when asked whether it accepts a signature.
-/
namespace SignedNames

/-- The outcome of a call that reached the chain. -/
inductive CallOutcome
  | returned (data : Bytes)
  | reverted
deriving DecidableEq

/-- Why the chain could not be asked. -/
inductive ChainError
  | unreachable
deriving DecidableEq

def ChainError.message : ChainError → String
  | .unreachable => "chain unreachable: memory chain is offline"

/-- A contract wallet, by what it does when asked about a digest and a signature. -/
structure Wallet where
  check : (digest : Block 32) → (signature : Bytes) → CallOutcome

namespace Wallet

/-- Accepts exactly the signatures that recover to its owner. -/
def owned (owner : Address) : Wallet where
  check digest signature :=
    match Signature.ofBytes signature with
    | .ok s =>
      if s.recover digest = .account owner then .returned Calldata.acceptance
      else .returned (List.replicate 32 0)
    | .error _ => .returned (List.replicate 32 0)

/-- Answers everything with the same data. -/
def constant (data : Bytes) : Wallet := ⟨fun _ _ => .returned data⟩

def failing : Wallet := ⟨fun _ _ => .reverted⟩

end Wallet

structure Chain where
  chainId : UInt64
  wallets : Table Address Wallet
  /-- Addresses at which every call fails. -/
  reverting : List Address
  reachable : Bool
  calls : Nat

namespace Chain

def ofId (chainId : UInt64) : Chain := ⟨chainId, .empty, [], true, 0⟩

def deploy (c : Chain) (address : Address) (w : Wallet) : Chain :=
  { c with wallets := c.wallets.set address w }

def forceRevert (c : Chain) (address : Address) : Chain :=
  { c with reverting := address :: c.reverting }

def setReachable (c : Chain) (reachable : Bool) : Chain := { c with reachable := reachable }

def hasCode (c : Chain) (address : Address) : Except ChainError Bool :=
  if c.reachable then .ok (c.wallets.get? address).isSome else .error .unreachable

/-- What a call does, without counting it. An address without a contract returns nothing, and a
wallet fails on data that is no signature check. -/
def outcome (c : Chain) (target : Address) (data : Bytes) : CallOutcome :=
  if target ∈ c.reverting then .reverted
  else
    match c.wallets.get? target with
    | none => .returned []
    | some wallet =>
      match Calldata.decode data with
      | none => .reverted
      | some (digest, signature) => wallet.check digest signature

/-- Makes a call and counts it; a call that does not reach the chain does not count. -/
def call (c : Chain) (target : Address) (data : Bytes) : Except ChainError CallOutcome × Chain :=
  if c.reachable then (.ok (c.outcome target data), { c with calls := c.calls + 1 })
  else (.error .unreachable, c)

end Chain
end SignedNames
