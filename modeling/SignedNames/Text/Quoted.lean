/-!
# Quoted characters

How a message shows one character: between single quotes, with an escape where the character could
not be read on a line of text.
-/
namespace SignedNames.Text

/-- Lower-case hexadecimal digits without leading zeros. -/
def hexDigits (n : Nat) : String := String.ofList (Nat.toDigits 16 n)

/-- Controls, the no-break space and the soft hyphen have no visible form of their own. -/
def Invisible (n : Nat) : Prop := n < 0x20 ∨ (0x7f ≤ n ∧ n ≤ 0xa0) ∨ n = 0xad

instance (n : Nat) : Decidable (Invisible n) := inferInstanceAs (Decidable (_ ∨ _ ∨ _))

/-- A byte shown as the character with that code point, between single quotes. -/
def quotedByte (b : UInt8) : String :=
  let shown :=
    if b = 0 then "\\0"
    else if b = 9 then "\\t"
    else if b = 10 then "\\n"
    else if b = 13 then "\\r"
    else if b = 39 then "\\'"
    else if b = 92 then "\\\\"
    else if Invisible b.toNat then "\\u\x7b" ++ hexDigits b.toNat ++ "\x7d"
    else String.singleton (Char.ofNat b.toNat)
  "'" ++ shown ++ "'"

end SignedNames.Text
