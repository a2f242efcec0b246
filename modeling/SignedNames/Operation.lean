import SignedNames.Settings
import SignedNames.Store.Program
import SignedNames.Verifier

/-!
# Operations

What publishers and readers do with a store, and how it can fail.
-/
namespace SignedNames

/-- Why a chain of chunks does not hold what it should. -/
inductive ChainFault
  | entryWithoutName (name : String) (chunk : Cid)
  | cycle (chunk : Cid)
  | tooLong (limit : Nat)
deriving DecidableEq

def ChainFault.message : ChainFault → String
  | .entryWithoutName name chunk =>
    "index entry for " ++ name ++ " points at chunk " ++ chunk.text ++ " which does not hold it"
  | .cycle chunk => "cycle at chunk " ++ chunk.text
  | .tooLong limit => "chain longer than " ++ toString limit ++ " chunks"

inductive Misuse
  | emptyBatch
  | unknownFingerprint (fingerprint : String)
deriving DecidableEq

def Misuse.message : Misuse → String
  | .emptyBatch => "cannot append an empty batch"
  | .unknownFingerprint fingerprint => "no signing key with fingerprint " ++ fingerprint

inductive OperationError
  | data (cause : DataError)
  | store (cause : StoreError)
  | verify (cause : VerifyError)
  | appendConflicts (namespaceName : String) (attempts : Nat)
  | profileConflicts (attempts : Nat)
  | corruptChain (cause : ChainFault)
  | namespaceNotFound (namespaceName : String)
  | misuse (cause : Misuse)
  | settings (cause : SettingsFault)
deriving DecidableEq

namespace OperationError

def message? : OperationError → Option String
  | .data cause => cause.message?.map ("core error: " ++ ·)
  | .store cause => cause.message?.map ("storage error: " ++ ·)
  | .verify cause => some ("verification error: " ++ cause.message)
  | .appendConflicts namespaceName attempts =>
    some ("append to namespace " ++ namespaceName ++ " still conflicting after "
      ++ toString attempts ++ " attempts")
  | .profileConflicts attempts =>
    some ("profile update still conflicting after " ++ toString attempts ++ " attempts")
  | .corruptChain cause => some ("corrupt chain: " ++ cause.message)
  | .namespaceNotFound namespaceName => some ("namespace not found: " ++ namespaceName)
  | .misuse cause => some ("invalid operation: " ++ cause.message)
  | .settings cause => cause.message?.map ("invalid config: " ++ ·)

def transient : OperationError → Bool
  | .store cause => cause.transient
  | .verify cause => cause.transient
  | _ => false

end OperationError

/-- A program over a store that stops at the first error. -/
abbrev Operation := ExceptT OperationError Program

namespace Operation

def fail {α : Type} (e : OperationError) : Operation α := ExceptT.mk (Program.done (.error e))

def check {α : Type} (outcome : Except DataError α) : Operation α :=
  ExceptT.mk (Program.done (outcome.mapError .data))

def access {α : Type} (a : Access α) : Operation α :=
  ExceptT.mk (a.run.bind fun outcome => .done (outcome.mapError .store))

def ask (r : Request) : Operation r.Answer := access (Access.ask r)

/-- An operation whose failure is an answer of its own. -/
def attempt {α : Type} (o : Operation α) : Operation (Except OperationError α) :=
  ExceptT.mk (o.run.bind fun outcome => .done (.ok outcome))

def run {σ α : Type} (b : Backend σ) (o : Operation α) (s : σ) :
    Except OperationError α × σ :=
  Program.run b (ExceptT.run o) s

end Operation
end SignedNames
