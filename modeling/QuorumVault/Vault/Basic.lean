import QuorumVault.Attestation.Policy
import QuorumVault.Audit.Journal
import QuorumVault.Envelope
import QuorumVault.Settings.Basic

/-!
# Vaults

A vault guards a master key, of which it makes and validates tokens. It begins sealed. In a session
it collects shares of the root secret, packed for the session's public key, until the master key can
be reconstructed, or it takes the master key over from a peer. Sealing it again forgets everything
but the journal.
-/

namespace QuorumVault

/-- Where a vault is between sealed and unsealed. -/
inductive Phase where
  | sealed
  | unsealing (session : KeyPair)
  | unsealed (session : KeyPair) (masterKey : SecretKey)
deriving DecidableEq

namespace Phase

def name : Phase → String
  | sealed => "sealed"
  | unsealing _ => "unsealing"
  | unsealed _ _ => "unsealed"

def session? : Phase → Option KeyPair
  | sealed => none
  | unsealing session => some session
  | unsealed session _ => some session

def masterKey? : Phase → Option SecretKey
  | sealed => none
  | unsealing _ => none
  | unsealed _ masterKey => some masterKey

end Phase

/-- A vault; payloads of tokens take values in the types of `β`. -/
structure Vault {ι : Type} (β : ι → Type) where
  settings : Settings
  /-- Whom the master key is handed to. -/
  policy : Policy
  /-- Who vouches for the vault. -/
  identity : Option Identity
  phase : Phase
  shares : ShareMap
  /-- The nonce of the request that was answered with the master key. -/
  servedNonce : Option Nonce
  /-- The nonce of the request that is waiting for an answer. -/
  requestedNonce : Option Nonce
  issuer : Issuer β
  journal : Journal

namespace Vault

variable {ι : Type} {β : ι → Type}

/-- A sealed vault with the given settings, which have to be allowed. -/
def ofSettings? (settings : Settings) (policy : Policy) (identity : Option Identity) :
    Except Refusal (Vault β) :=
  match settings.check with
  | .error fault => .error (.settings fault)
  | .ok () =>
    .ok ⟨settings, policy, identity, .sealed, .empty, none, none, .ofPolicy settings.tokens,
      .empty settings.auditCapacity⟩

def pending (v : Vault β) : Nat := v.shares.size

def sessionKey (v : Vault β) : Except Refusal PublicKey :=
  match v.phase.session? with
  | some session => .ok session.publicKey
  | none => .error (.precondition "no session key; call unseal first")

def log (e : Entry) (v : Vault β) : Vault β := { v with journal := v.journal.record e }

/-! ### Tokens -/

/-- A token for a payload, if the vault has its master key. -/
def issueToken (payload : Bytes) (now : Timestamp) (v : Vault β) :
    Drawing TokenFault (Option String) :=
  v.issuer.issue payload now

def acceptsToken (now : Clock) (h : TokenHandle) (v : Vault β) : Bool × Vault β :=
  let (answer, issuer) := v.issuer.valid now h
  (answer, { v with issuer := issuer })

def validateToken [DecidableEq ι] (now : Clock) (h : TokenHandle) (i : ι)
    (transform : Bytes → Option (β i)) (v : Vault β) : Option (β i) × Vault β :=
  let (value, issuer) := v.issuer.validate now h i transform
  (value, { v with issuer := issuer })

end Vault

end QuorumVault
