import SignedNames.Publisher

/-!
# Parties of examples

Publishers with the secrets 1, 2, 3 and so on, each for its own account.
-/
namespace SignedNames.Reference

def exampleChain : UInt64 := 100

/-- The seed of a party; the secret is kept to one byte. -/
def partySeed (i : Nat) : Block 32 := BigEndian.block 32 ((i + 1) % 256)

def party? (i : Nat) : Option Publisher :=
  (Keypair.ofSeed? (partySeed i)).map fun keypair =>
    ⟨keypair, none, { PublisherSettings.standard with chainId := exampleChain }⟩

/-- The first parties; there are 255. -/
def parties? (count : Nat) : Option (List Publisher) := (List.range count).mapM party?

end SignedNames.Reference
