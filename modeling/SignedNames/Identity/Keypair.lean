import SignedNames.Identity.PublicKey
import SignedNames.Identity.Signature

/-!
# Key pairs

A secret scalar with its public point.
-/
namespace SignedNames

structure Keypair where
  secret : Ecdsa.Scalar
  point : Secp256k1.Point
  point_eq : Secp256k1.multiple secret.value = some point

namespace Keypair

/-- The pair of a secret, unless the secret is zero or not below the group order. -/
def ofSeed? (seed : Block 32) : Option Keypair :=
  match Ecdsa.Scalar.ofNat? (BigEndian.value seed.bytes) with
  | none => none
  | some secret =>
    match h : Secp256k1.multiple secret.value with
    | none => none
    | some point => some ⟨secret, point, h⟩

def seed (k : Keypair) : Block 32 := BigEndian.block 32 k.secret.value

def publicKey (k : Keypair) : PublicKey := PublicKey.ofPoint k.point

def address (k : Keypair) : Address := Address.ofPoint k.point

def sign? (k : Keypair) (digest : Block 32) : Option Signature :=
  (Ecdsa.sign? k.secret digest).map fun (pair, odd) => Signature.ofParts pair odd

/-- How diagnostics show a key pair: without its secret. -/
def describe (k : Keypair) : String := "Keypair(" ++ k.address.text ++ ")"

end Keypair
end SignedNames
