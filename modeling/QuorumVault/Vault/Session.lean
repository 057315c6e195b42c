import QuorumVault.Sharing.Combine
import QuorumVault.Vault.Basic
import QuorumVault.Vault.Status

/-!
# Sessions

How a vault is unsealed with shares, and how it is sealed. A share that cannot be accepted changes
nothing, and neither does an attempt to reconstruct the master key that fails: both are only
recorded.
-/

namespace QuorumVault.Vault

variable {ι : Type} {β : ι → Type}

/-! ### Starting -/

/-- Starts a session with a fresh key pair. A vault that already collects shares drops them. -/
def startSession (stamp : Stamp) (v : Vault β) (rng : Entropy) :
    Except (Setback Refusal) Status × Vault β × Entropy :=
  match v.phase with
  | .unsealed _ _ =>
    (.error (.fault (.precondition "enclave is already unsealed; seal it first")), v, rng)
  | .sealed | .unsealing _ =>
    match KeyPair.generate rng with
    | (.error setback, rng) => (.error setback, v, rng)
    | (.ok session, rng) =>
      let e := (Entry.ofStamp stamp .unsealStarted).withShareCount 0
      (.ok (.ok 0),
        { v with phase := .unsealing session, shares := .empty, requestedNonce := none }.log e, rng)

/-! ### Collecting shares -/

def rejectShare (stamp : Stamp) (cause answer : String) (v : Vault β) :
    Except Refusal Status × Vault β :=
  let e := ((Entry.ofStamp stamp .shareRejected).withShareCount v.pending).failed cause
  (.ok (.failure v.pending answer), v.log e)

/-- Keeps a share, in the place of an earlier one with the same index. -/
def keepShare (stamp : Stamp) (share : Share) (v : Vault β) : Except Refusal Status × Vault β :=
  let shares := v.shares.insert share
  let details := Json.object [("index", .nat share.index.toNat),
    ("replaced", .bool (v.shares.contains share.index))]
  let e := ((Entry.ofStamp stamp .shareAccepted).withShareCount shares.size).withDetails details
  (.ok (.ok shares.size), { v with shares := shares }.log e)

/-- Takes a share out of its envelope and keeps it, if its index is one of those that were dealt. -/
def submit (stamp : Stamp) (envelope : Envelope) (v : Vault β) : Except Refusal Status × Vault β :=
  match v.phase with
  | .unsealing session =>
    match envelope.unpackShare v.settings.suite session with
    | .error fault => v.rejectShare stamp fault.message s!"share rejected: {fault.message}"
    | .ok share =>
      if v.settings.shareCount < share.index then
        let cause := s!"share index {share.index} outside 1..={v.settings.shareCount}"
        v.rejectShare stamp cause cause
      else v.keepShare stamp share
  | .sealed | .unsealed _ _ =>
    (.error (.precondition "apply requires an unsealing enclave"), v)

/-! ### Reconstructing the master key -/

/-- Puts the master key in place: the vault is unsealed, its token keys are installed and no shares
are left. -/
def install (session : KeyPair) (masterKey : SecretKey) (v : Vault β) : Vault β :=
  { v with
    phase := .unsealed session masterKey
    shares := .empty
    issuer := v.issuer.install masterKey }

/-- The vault with all of its pending shares taken out. -/
def takeShares (v : Vault β) : Vault β := { v with shares := .empty }

/-- Puts shares back that were taken out. -/
def restoreShares (taken : ShareMap) (v : Vault β) : Vault β :=
  { v with shares := v.shares.extend taken }

/-- Reconstructs the master key from the pending shares. They are taken out for it, and put back if
there is no key. -/
def reconstruct (stamp : Stamp) (v : Vault β) : Except Refusal UnwrapStatus × Vault β :=
  match v.phase with
  | .unsealing session =>
    let taken := v.shares
    let count := taken.size
    if count < v.settings.threshold.toNat then
      (.ok (.failure count (Sharing.needed v.settings.threshold count)), v)
    else
      let failed (cause : String) : Vault β :=
        (v.takeShares.restoreShares taken).log
          (((Entry.ofStamp stamp .unwrapFailed).withShareCount count).failed cause)
      match Sharing.combine v.settings.threshold taken with
      | .error fault =>
        (.ok (.failure count s!"shares did not combine: {fault.message}"), failed fault.message)
      | .ok secret =>
        match v.settings.derivation.derive? secret with
        | .error fault =>
          let refusal := Refusal.masterKey fault.message
          (.error refusal, failed refusal.message)
        | .ok masterKey =>
          let e := (Entry.ofStamp stamp .unsealed).withShareCount count
          (.ok ⟨true, count, v.identity.map (·.digest), ""⟩,
            (v.takeShares.install session masterKey).log e)
  | .sealed | .unsealed _ _ =>
    (.error (.precondition "unwrap requires an unsealing enclave"), v)

/-! ### Sealing -/

/-- Seals a vault: it forgets its keys, its shares, the requests that it knows of and all tokens. -/
def sealOff (stamp : Stamp) (v : Vault β) : Status × Vault β :=
  let e := (Entry.ofStamp stamp .sealed).withShareCount 0
  (.ok 0,
    { v with
      phase := .sealed
      shares := .empty
      servedNonce := none
      requestedNonce := none
      issuer := v.issuer.clear }.log e)

end QuorumVault.Vault
