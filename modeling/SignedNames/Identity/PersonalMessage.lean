import SignedNames.Hash.Keccak

/-!
# Personal messages

Accounts sign messages behind a prefix that no transaction starts with, followed by the length of
the message in decimal digits.
-/
namespace SignedNames.PersonalMessage

def heading : Bytes := 0x19 :: Text.utf8 "Ethereum Signed Message:\n"

def preimage (message : Bytes) : Bytes :=
  heading ++ Text.utf8 (toString message.length) ++ message

def digest (message : Bytes) : Block 32 := Keccak.hash (preimage message)

end SignedNames.PersonalMessage
