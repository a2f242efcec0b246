import SignedNames.Chunk
import SignedNames.Link.Document

/-!
# Chunks as documents
-/
namespace SignedNames.Chunk

def prevMember : Option Cid → List (String × Json.Value)
  | some cid => [("prev", .text cid.text)]
  | none => []

def value (c : Chunk) : Json.Value :=
  .object (prevMember c.prev ++ [("links", .array (c.links.map Link.value))])

def document (c : Chunk) : String := c.value.render

def fields : List Json.Field := [
  .of "prev" (Json.Reader.orNull Json.Reader.cid),
  .of "links" (Json.Reader.list Link.read)]

def read : Json.Reader Chunk := fun tree => do
  let r ← Json.Record.read fields tree
  let prev ← r.optional "prev" (Json.Reader.orNull Json.Reader.cid) none
  let links ← r.optional "links" (Json.Reader.list Link.read) []
  return ⟨prev, links⟩

def parse (s : String) : Except DataError Chunk := (Json.parse read s).mapError .document

end SignedNames.Chunk
