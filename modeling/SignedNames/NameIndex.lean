import SignedNames.Chunk
import SignedNames.Json.Record

/-!
# Name indexes

The record that a namespace starts from: its newest chunk, and for every name the chunk that holds
the latest link with it. Names are kept in lower case.
-/
namespace SignedNames

structure NameIndex where
  head : Cid
  entries : NameMap Cid

namespace NameIndex

/-- The index of a chain whose names are not known. -/
def ofHead (head : Cid) : NameIndex := ⟨head, .empty⟩

/-- The index after a chunk was put in front: its names point to it, all others stay. -/
def advance (previous : Option NameIndex) (cid : Cid) (chunk : Chunk) : NameIndex :=
  let before := (previous.map (·.entries)).getD .empty
  ⟨cid, chunk.links.foldl (fun entries l => entries.insert l.body.key cid) before⟩

def lookup (i : NameIndex) (name : String) : Option Cid := i.entries.get? (Text.lower name)

def names (i : NameIndex) : List String := i.entries.keys

def value (i : NameIndex) : Json.Value :=
  .object [("head", .text i.head.text),
    ("entries", .object (i.entries.entries.map fun e => (e.1, .text e.2.text)))]

def document (i : NameIndex) : String := i.value.render

def fields : List Json.Field := [
  .of "head" Json.Reader.cid,
  .of "entries" (Json.Reader.nameMap Json.Reader.cid)]

/-- Names are brought to lower case in the order of the map, so that the last spelling counts. -/
def read : Json.Reader NameIndex := fun tree => do
  let r ← Json.Record.read fields tree
  let head ← r.required "head" Json.Reader.cid
  let entries ← r.optional "entries" (Json.Reader.nameMap Json.Reader.cid) .empty
  return ⟨head, entries.mapKeys Text.lower⟩

def parse (s : String) : Except DataError NameIndex := (Json.parse read s).mapError .document

end NameIndex
end SignedNames
