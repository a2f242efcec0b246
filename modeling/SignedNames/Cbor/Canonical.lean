import SignedNames.Cbor.Item

/-!
# Canonical binary form

The values that links and chunks are made of, and their one encoding: numbers and lengths in the
fewest bytes, lengths always definite, the keys of a map in the bytewise order of their encodings.
-/
namespace SignedNames.Cbor

/-- Values without fractions, nulls and tags. -/
inductive Canonical
  | natural (n : UInt64)
  | bytes (bs : Bytes)
  | text (s : String)
  | bool (b : Bool)
  | array (items : List Canonical)
  | map (entries : List (String × Canonical))

/-- The kind of an item with its number, in the fewest bytes. -/
def headBytes (major : Nat) (n : Nat) : Bytes :=
  let first (form : Nat) := UInt8.ofNat (major * 32 + form)
  if n < 24 then [first n]
  else if n < UInt8.size then first 24 :: BigEndian.digits 1 n
  else if n < UInt16.size then first 25 :: BigEndian.digits 2 n
  else if n < UInt32.size then first 26 :: BigEndian.digits 4 n
  else first 27 :: BigEndian.digits 8 n

def byteStringBytes (bs : Bytes) : Bytes := headBytes 2 bs.length ++ bs

def textBytes (s : String) : Bytes := headBytes 3 (Text.utf8 s).length ++ Text.utf8 s

structure EncodedEntry where
  key : Bytes
  value : Bytes

/-- Puts an entry before the first one with a greater key. -/
def insertByKey (e : EncodedEntry) : List EncodedEntry → List EncodedEntry
  | [] => [e]
  | f :: rest => if e.key < f.key then e :: f :: rest else f :: insertByKey e rest

def sortByKey (entries : List EncodedEntry) : List EncodedEntry :=
  entries.foldl (fun sorted e => insertByKey e sorted) []

def mapBytes (entries : List EncodedEntry) : Bytes :=
  headBytes 5 entries.length ++ (sortByKey entries).flatMap fun e => e.key ++ e.value

namespace Canonical

mutual

def encode : Canonical → Bytes
  | .natural n => headBytes 0 n.toNat
  | .bytes bs => byteStringBytes bs
  | .text s => textBytes s
  | .bool b => [if b then 0xf5 else 0xf4]
  | .array items => headBytes 4 items.length ++ encodeItems items
  | .map entries => mapBytes (encodeEntries entries)

def encodeItems : List Canonical → Bytes
  | [] => []
  | item :: rest => item.encode ++ encodeItems rest

def encodeEntries : List (String × Canonical) → List EncodedEntry
  | [] => []
  | (key, value) :: rest => ⟨textBytes key, value.encode⟩ :: encodeEntries rest

end

end Canonical
end SignedNames.Cbor
