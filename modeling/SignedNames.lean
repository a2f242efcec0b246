import SignedNames.Reference.Parties
import SignedNames.Reference.Vectors
import SignedNames.Chunk.Document
import SignedNames.Store.Rivals
import SignedNames.Proofs.ExactlyOnce
import SignedNames.Proofs.LatestVersion
import SignedNames.Proofs.SigningBytes
import SignedNames.Proofs.UntrustedBytes
import SignedNames.Proofs.ProfileHeads
import SignedNames.Proofs.Scripts
import SignedNames.Proofs.PublishedLinks
import SignedNames.Proofs.Reloading
import SignedNames.Proofs.Revocation
import SignedNames.Proofs.Store.SwappedRecords
import SignedNames.Proofs.LinkDocument
import SignedNames.Proofs.Auditing
import SignedNames.Proofs.RivalRaces
import SignedNames.Proofs.Isolation
import SignedNames.Proofs.Spelling
import SignedNames.Proofs.Cbor.Heads
import SignedNames.Proofs.Cbor.WellFormed
import SignedNames.Proofs.KeyLifecycle
import SignedNames.Proofs.Cbor.Deterministic
import SignedNames.Proofs.DeterministicBytes
import SignedNames.Proofs.ChunkExtension
import SignedNames.Proofs.WalkLimits
import SignedNames.Proofs.Batching
import SignedNames.Proofs.Malleability
import SignedNames.Proofs.HeadsOnce
import SignedNames.Proofs.ConcurrentAudits
