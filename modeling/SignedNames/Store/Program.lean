import SignedNames.NameIndex
import SignedNames.Profile
import SignedNames.Store.Error

/-!
# Programs over a store

A store holds immutable byte strings by identifier, and two kinds of records that only change by
comparing and swapping: the index of every namespace, compared by its head, and the profile of every
owner, compared by its revision. What publishers and readers do is written as a program of single
requests, so that it can be run against any store and interleaved with other programs between any
two requests.
-/
namespace SignedNames

/-- A record and the number of swaps that led to it. -/
structure Versioned (α : Type) where
  value : α
  revision : Nat

inductive Swap (α : Type)
  | swapped
  /-- The record was not as expected; it holds `current`. -/
  | conflict (current : Option α)

inductive Request
  | put (bs : Bytes)
  | get (cid : Cid)
  | has (cid : Cid)
  | loadIndex (owner : Address) (namespaceName : String)
  /-- Puts an index in place of the one with the expected head, or where there is none. -/
  | swapIndex (owner : Address) (namespaceName : String) (expected : Option Cid) (next : NameIndex)
  | listNamespaces (owner : Address)
  | loadProfile (owner : Address)
  /-- Puts a profile in place of the one with the expected revision, or where there is none. -/
  | swapProfile (owner : Address) (expected : Option Nat) (next : Profile)

abbrev Request.Answer : Request → Type
  | .put _ => Cid
  | .get _ => Bytes
  | .has _ => Bool
  | .loadIndex .. => Option NameIndex
  | .swapIndex .. => Swap NameIndex
  | .listNamespaces _ => List String
  | .loadProfile _ => Option (Versioned Profile)
  | .swapProfile .. => Swap (Versioned Profile)

abbrev Request.Reply (r : Request) : Type := Except StoreError r.Answer

/-- A program that makes requests one at a time and goes on with each reply. -/
inductive Program (α : Type) : Type
  | done (result : α)
  | ask (r : Request) (next : r.Reply → Program α)

namespace Program

def bind {α β : Type} : Program α → (α → Program β) → Program β
  | .done a, f => f a
  | .ask r next, f => .ask r fun reply => (next reply).bind f

instance : Monad Program where
  pure := .done
  bind := bind

end Program

/-- How a store of states `σ` replies to each request. -/
abbrev Backend (σ : Type) := (r : Request) → σ → r.Reply × σ

def Program.run {σ α : Type} (b : Backend σ) : Program α → σ → α × σ
  | .done a, s => (a, s)
  | .ask r next, s =>
    let (reply, s) := b r s
    (next reply).run b s

/-- A program that stops at the first error of the store. -/
abbrev Access := ExceptT StoreError Program

namespace Access

def ask (r : Request) : Access r.Answer := ExceptT.mk (Program.ask r Program.done)

def fail {α : Type} (e : StoreError) : Access α := ExceptT.mk (Program.done (.error e))

def putChunk (c : Chunk) : Access Cid := ask (.put c.bytes)

/-- Fetches a chunk and checks that its bytes belong to the identifier before decoding them. -/
def getChunk (cid : Cid) : Access Chunk := do
  let bs ← ask (.get cid)
  if Cid.ofBytes bs = cid then
    match Chunk.decode bs with
    | .ok c => return c
    | .error cause => fail (.unreadable cause)
  else fail (.integrity cid (Cid.ofBytes bs))

end Access
end SignedNames
