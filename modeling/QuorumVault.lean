import QuorumVault.Attestation.Identity
import QuorumVault.Attestation.Nonce
import QuorumVault.Attestation.Policy
import QuorumVault.Attestation.Request
import QuorumVault.Audit.Entry
import QuorumVault.Audit.Journal
import QuorumVault.Audit.Uuid
import QuorumVault.Bytes
import QuorumVault.Cipher.Aes
import QuorumVault.Cipher.Gcm
import QuorumVault.Curve.X25519
import QuorumVault.Entropy
import QuorumVault.Envelope
import QuorumVault.Hash.Hmac
import QuorumVault.Hash.Sha256
import QuorumVault.Hash.Sha512
import QuorumVault.Json.Decode
import QuorumVault.Json.Draft
import QuorumVault.Json.Printer
import QuorumVault.Json.Value
import QuorumVault.Key.CipherSuite
import QuorumVault.Key.CryptoFault
import QuorumVault.Key.Derivation
import QuorumVault.Key.Exchange
import QuorumVault.Key.SecretBox
import QuorumVault.Key.SecretKey
import QuorumVault.Number.Binary64
import QuorumVault.Number.Shortest
import QuorumVault.Proofs.Audit.Entry
import QuorumVault.Proofs.Audit.Journal
import QuorumVault.Proofs.Bytes
import QuorumVault.Proofs.Cipher.Gcm
import QuorumVault.Proofs.Curve.Ladder
import QuorumVault.Proofs.Curve.Prime
import QuorumVault.Proofs.Curve.X25519
import QuorumVault.Proofs.Draws
import QuorumVault.Proofs.Entropy
import QuorumVault.Proofs.Envelope
import QuorumVault.Proofs.Json.Line
import QuorumVault.Proofs.Json.Number
import QuorumVault.Proofs.Json.Record
import QuorumVault.Proofs.Json.Text
import QuorumVault.Proofs.Key.Exchange
import QuorumVault.Proofs.Key.SecretBox
import QuorumVault.Proofs.KeySource
import QuorumVault.Proofs.Settings.Endpoint
import QuorumVault.Proofs.Settings.Lookup
import QuorumVault.Proofs.Settings.SocketAddress
import QuorumVault.Proofs.Sharing.Combining
import QuorumVault.Proofs.Sharing.Gf256
import QuorumVault.Proofs.Sharing.Interpolation
import QuorumVault.Proofs.Sharing.Secrecy
import QuorumVault.Proofs.Sharing.Share
import QuorumVault.Proofs.Sharing.Threshold
import QuorumVault.Proofs.Text.Base64
import QuorumVault.Proofs.Text.Blank
import QuorumVault.Proofs.Text.Canonical
import QuorumVault.Proofs.Text.Numeral
import QuorumVault.Proofs.Time.Rfc3339
import QuorumVault.Proofs.Token.Acceptance
import QuorumVault.Proofs.Token.Age
import QuorumVault.Proofs.Token.Backing
import QuorumVault.Proofs.Token.Desk
import QuorumVault.Proofs.Token.Eviction
import QuorumVault.Proofs.Token.Format
import QuorumVault.Proofs.Token.Handle
import QuorumVault.Proofs.Token.Issuer
import QuorumVault.Proofs.Token.Refusal
import QuorumVault.Proofs.Token.TimedCache
import QuorumVault.Proofs.Token.Verdicts
import QuorumVault.Proofs.Token.Verifying
import QuorumVault.Proofs.Vault.Agreement
import QuorumVault.Proofs.Vault.Atomicity
import QuorumVault.Proofs.Vault.Collecting
import QuorumVault.Proofs.Vault.Discretion
import QuorumVault.Proofs.Vault.Drawing
import QuorumVault.Proofs.Vault.Handover
import QuorumVault.Proofs.Vault.History
import QuorumVault.Proofs.Vault.Interruption
import QuorumVault.Proofs.Vault.Lifecycle
import QuorumVault.Proofs.Vault.Network
import QuorumVault.Proofs.Vault.Outcome
import QuorumVault.Proofs.Vault.Peer
import QuorumVault.Proofs.Vault.Provenance
import QuorumVault.Proofs.Vault.Reconstructing
import QuorumVault.Proofs.Vault.Requesting
import QuorumVault.Proofs.Vault.Run
import QuorumVault.Proofs.Vault.Serving
import QuorumVault.Proofs.Vault.Session
import QuorumVault.Proofs.Vault.Submitting
import QuorumVault.Proofs.Vault.Trail
import QuorumVault.Proofs.Vault.Unsealing
import QuorumVault.Proofs.Wire
import QuorumVault.Refusal
import QuorumVault.Settings.Basic
import QuorumVault.Settings.Endpoint
import QuorumVault.Settings.Fault
import QuorumVault.Settings.LogFormat
import QuorumVault.Settings.SocketAddress
import QuorumVault.Sharing.Combine
import QuorumVault.Sharing.Gf256
import QuorumVault.Sharing.Share
import QuorumVault.Sharing.Split
import QuorumVault.Text.Base64
import QuorumVault.Text.Blank
import QuorumVault.Text.Digit
import QuorumVault.Text.Hex
import QuorumVault.Text.Numeral
import QuorumVault.Text.Quoted
import QuorumVault.Text.Unshown
import QuorumVault.Time.Instant
import QuorumVault.Time.Rfc3339
import QuorumVault.Token.Fault
import QuorumVault.Token.Format
import QuorumVault.Token.Handle
import QuorumVault.Token.Issuer
import QuorumVault.Token.TimedCache
import QuorumVault.Vault.Basic
import QuorumVault.Vault.Handover
import QuorumVault.Vault.Session
import QuorumVault.Vault.Status
