import SignedNames.Json.Record

/-!
# Settings

How publishers and readers work, read from a document in which everything may be left out.
-/
namespace SignedNames

structure PublisherSettings where
  chainId : UInt64
  /-- How often an append or an edit of the profile is tried. -/
  maxAttempts : Nat
  /-- Milliseconds to wait after the first lost swap. -/
  backoff : UInt64

structure ReaderSettings where
  /-- The longest chain that is followed. -/
  maxChainWalk : Nat
  /-- Whether links by signers without a registered key are distrusted. -/
  requireRegisteredKey : Bool

structure Settings where
  publisher : PublisherSettings
  reader : ReaderSettings

inductive SettingsFault
  | document (fault : DocumentFault)
  | noAttempts
  | noChainWalk
deriving DecidableEq

def SettingsFault.message? : SettingsFault → Option String
  | .document fault => fault.message?
  | .noAttempts => some "publisher.max_append_attempts must be at least 1"
  | .noChainWalk => some "reader.max_chain_walk must be at least 1"

def PublisherSettings.standard : PublisherSettings := ⟨1, 8, 5⟩

def ReaderSettings.standard : ReaderSettings := ⟨1000000, true⟩

def Settings.standard : Settings := ⟨.standard, .standard⟩

namespace PublisherSettings

def fields : List Json.Field := [
  .of "chain_id" Json.Reader.word,
  .of "max_append_attempts" (Json.Reader.below UInt32.size),
  .of "retry_backoff_ms" Json.Reader.word]

def read : Json.Reader PublisherSettings := fun tree => do
  let r ← Json.Record.read fields tree
  let chainId ← r.optional "chain_id" Json.Reader.word standard.chainId
  let maxAttempts ←
    r.optional "max_append_attempts" (Json.Reader.below UInt32.size) standard.maxAttempts
  let backoff ← r.optional "retry_backoff_ms" Json.Reader.word standard.backoff
  return ⟨chainId, maxAttempts, backoff⟩

end PublisherSettings

namespace ReaderSettings

def verifierFields : List Json.Field := [.of "require_registered_key" Json.Reader.bool]

def readVerifier : Json.Reader Bool := fun tree => do
  let r ← Json.Record.read verifierFields tree
  r.optional "require_registered_key" Json.Reader.bool standard.requireRegisteredKey

def fields : List Json.Field := [
  .of "max_chain_walk" (Json.Reader.below UInt64.size),
  .of "verifier" readVerifier]

def read : Json.Reader ReaderSettings := fun tree => do
  let r ← Json.Record.read fields tree
  let maxChainWalk ←
    r.optional "max_chain_walk" (Json.Reader.below UInt64.size) standard.maxChainWalk
  let requireRegisteredKey ← r.optional "verifier" readVerifier standard.requireRegisteredKey
  return ⟨maxChainWalk, requireRegisteredKey⟩

end ReaderSettings

namespace Settings

def fields : List Json.Field := [
  .of "publisher" PublisherSettings.read,
  .of "reader" ReaderSettings.read]

def read : Json.Reader Settings := fun tree => do
  let r ← Json.Record.read fields tree
  let publisher ← r.optional "publisher" PublisherSettings.read .standard
  let reader ← r.optional "reader" ReaderSettings.read .standard
  return ⟨publisher, reader⟩

/-- Refuses settings under which nothing could be appended or read. -/
def validate (s : Settings) : Except SettingsFault Unit :=
  if s.publisher.maxAttempts = 0 then .error .noAttempts
  else if s.reader.maxChainWalk = 0 then .error .noChainWalk
  else .ok ()

def parse (s : String) : Except SettingsFault Settings := do
  let settings ← (Json.parse read s).mapError .document
  settings.validate
  return settings

end Settings
end SignedNames
