import SignedNames.Bytes.Hex

/-!
# Nonces

Sixteen bytes that tell apart links with the same content. The text is hexadecimal without a mark.
-/
namespace SignedNames

structure Nonce where
  block : Block 16
deriving DecidableEq

namespace Nonce

inductive Fault
  | hex (cause : Hex.Fault)
  | length
deriving DecidableEq

def Fault.message : Fault → String
  | .hex cause => cause.message
  | .length => "expected 16 bytes"

def text (n : Nonce) : String := Hex.encode n.block.bytes

def parse (s : String) : Except Fault Nonce :=
  match Hex.decode (Text.utf8 s) with
  | .error cause => .error (.hex cause)
  | .ok bs =>
    match Block.ofBytes? 16 bs with
    | some block => .ok ⟨block⟩
    | none => .error .length

def describe (n : Nonce) : String := "Nonce(" ++ n.text ++ ")"

end Nonce
end SignedNames
