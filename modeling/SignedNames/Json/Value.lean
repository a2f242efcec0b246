import SignedNames.Bytes.Basic
import SignedNames.Decimal.Shortest

/-!
# Documents and their text

Values are written without blanks. Members are written in the order given, texts with the shortest
escapes, floating-point numbers with the fewest digits that read back.
-/
namespace SignedNames.Json

/-- The numbers a document can hold: whole numbers of 64 bits, and all others rounded to a
floating-point number, given by its bits. A negative number is given by its magnitude. -/
inductive Number
  | natural (n : UInt64)
  | negative (magnitude : UInt64)
  | float (bits : UInt64)
deriving DecidableEq

inductive Value
  | null
  | bool (b : Bool)
  | number (n : Number)
  | text (s : String)
  | array (items : List Value)
  | object (members : List (String × Value))

/-- Numbers from 0.00001 up to sixteen digits before the point are written positionally. -/
def floatLayout : Decimal.Layout := ⟨-5, 15, "+"⟩

def Number.chars : Number → List Char
  | .natural n => (toString n.toNat).toList
  | .negative magnitude => '-' :: (toString magnitude.toNat).toList
  | .float bits => (floatLayout.text bits).toList

/-- A control character without an escape of its own: four hexadecimal digits. -/
def controlEscape (n : Nat) : List Char :=
  ['\\', 'u', '0', '0', Nat.digitChar (n / 16), Nat.digitChar (n % 16)]

def quotedChar (c : Char) : List Char :=
  if c = '"' then ['\\', '"']
  else if c = '\\' then ['\\', '\\']
  else if c = '\x08' then ['\\', 'b']
  else if c = '\t' then ['\\', 't']
  else if c = '\n' then ['\\', 'n']
  else if c = '\x0c' then ['\\', 'f']
  else if c = '\r' then ['\\', 'r']
  else if c.toNat < 0x20 then controlEscape c.toNat
  else [c]

def quoted (s : String) : List Char := '"' :: s.toList.flatMap quotedChar ++ ['"']

def separated : List (List Char) → List Char
  | [] => []
  | [piece] => piece
  | piece :: rest => piece ++ ',' :: separated rest

namespace Value

mutual

def chars : Value → List Char
  | .null => ['n', 'u', 'l', 'l']
  | .bool true => ['t', 'r', 'u', 'e']
  | .bool false => ['f', 'a', 'l', 's', 'e']
  | .number n => n.chars
  | .text s => quoted s
  | .array items => '[' :: separated (itemChars items) ++ [']']
  | .object members => '{' :: separated (memberChars members) ++ ['}']

def itemChars : List Value → List (List Char)
  | [] => []
  | item :: rest => item.chars :: itemChars rest

def memberChars : List (String × Value) → List (List Char)
  | [] => []
  | (key, value) :: rest => (quoted key ++ ':' :: value.chars) :: memberChars rest

end

def render (v : Value) : String := String.ofList v.chars

def natural (n : UInt64) : Value := .number (.natural n)

end Value
end SignedNames.Json
