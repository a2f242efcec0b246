import SignedNames.Cid
import SignedNames.Identity.Nonce
import SignedNames.Identity.PublicKey
import SignedNames.Identity.Signature

/-!
# Faults in texts and data

What can be wrong with the texts and bytes that names, keys and links are read from. A cause whose
wording is left open has no message.
-/
namespace SignedNames

inductive FormatFault
  | cid (cause : Cid.Fault)
  | signature (cause : Signature.Fault)
  | address (cause : Address.Fault)
  | nonce (cause : Nonce.Fault)
  | publicKey (cause : PublicKey.Fault)
deriving DecidableEq

def FormatFault.message : FormatFault → String
  | .cid cause => "malformed CID: " ++ cause.message
  | .signature cause => "malformed signature: " ++ cause.message
  | .address cause => "malformed address: " ++ cause.message
  | .nonce cause => "malformed nonce: " ++ cause.message
  | .publicKey cause => "malformed public key: " ++ cause.message

inductive DocumentFault
  /-- The text is not a document. -/
  | garbled
  /-- A value is of another kind, or out of range. -/
  | wrongKind
  /-- A record written as a list has too few or too many items. -/
  | wrongCount
  | missingField (field : String)
  | duplicateField (field : String)
  | malformed (cause : FormatFault)
deriving DecidableEq

def DocumentFault.message? : DocumentFault → Option String
  | .garbled => none
  | .wrongKind => none
  | .wrongCount => none
  | .missingField field => some ("missing field `" ++ field ++ "`")
  | .duplicateField field => some ("duplicate field `" ++ field ++ "`")
  | .malformed cause => some cause.message

inductive ChunkFault
  | notMap
  | prev
  | links
  | linkNotMap
  | linkField (field : String)
deriving DecidableEq

def ChunkFault.message : ChunkFault → String
  | .notMap => "expected map"
  | .prev => "invalid prev"
  | .links => "missing or invalid links"
  | .linkNotMap => "link is not a map"
  | .linkField field => "invalid link field " ++ field

inductive DataError
  | format (fault : FormatFault)
  | invalidSecretKey
  | unrecoverable
  | missingField (field : String)
  | signingKeyUnavailable
  | signingFailed
  | malformedChunk (fault : ChunkFault)
  | document (fault : DocumentFault)
  /-- The bytes are not an item of the binary format. -/
  | binary
deriving DecidableEq

def DataError.message? : DataError → Option String
  | .format fault => some fault.message
  | .invalidSecretKey => some "invalid secret key"
  | .unrecoverable => some "signature could not be recovered"
  | .missingField field => some ("missing required field: " ++ field)
  | .signingKeyUnavailable => some "signing key unavailable"
  | .signingFailed => some "encoding error: signature error"
  | .malformedChunk fault => some ("malformed chunk: " ++ fault.message)
  | .document fault => fault.message?.map ("decoding error: " ++ ·)
  | .binary => none

end SignedNames
