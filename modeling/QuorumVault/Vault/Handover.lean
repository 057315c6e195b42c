import QuorumVault.Vault.Session

/-!
# Handing the master key over

A vault that is unsealing asks an unsealed one for the master key. The one that is asked answers one
request in the time between two seals, packs the master key for the public key of the request, and
binds it to the request's nonce. The one that asked tries one answer for each of its requests.
-/

namespace QuorumVault.Vault

variable {ι : Type} {β : ι → Type}

/-! ### The vault that is asked -/

/-- Notes that a request is being answered. -/
def claim (nonce : Nonce) (v : Vault β) : Vault β := { v with servedNonce := some nonce }

/-- Forgets the request that is being answered, so that it may be sent again. -/
def release (nonce : Nonce) (v : Vault β) : Vault β :=
  if v.servedNonce = some nonce then { v with servedNonce := none } else v

/-- Answers a request with the master key, if the policy accepts it and no other request has been
answered. The answer to a request that comes too late is empty. A request that cannot be answered
does not count. -/
def serve (stamp : Stamp) (r : KeyRequest) (v : Vault β) (rng : Entropy) :
    Except (Setback Refusal) Envelope × Vault β × Entropy :=
  match v.phase with
  | .unsealed _ masterKey =>
    match v.policy.check r with
    | .error refusal =>
      let e := (Entry.ofStamp stamp .provisioningRejected).failed refusal.message
      (.error (.fault refusal), v.log e, rng)
    | .ok () =>
      match v.servedNonce with
      | some _ =>
        let details := Json.object [("reason", .string "nonce slot occupied")]
        let e := (Entry.ofStamp stamp .provisioningDeclined).withDetails details
        (.ok .empty, v.log e, rng)
      | none =>
        let claimed := v.claim r.nonce
        match Envelope.pack v.settings.suite r.sessionKey r.nonce.toBytes masterKey.toBytes rng with
        | (.ok bundle, rng) =>
          (.ok bundle, claimed.log (Entry.ofStamp stamp .provisioningServed), rng)
        | (.error (.fault fault), rng) =>
          let e := (Entry.ofStamp stamp .provisioningServed).failed fault.message
          (.error (.fault (.crypto fault)), (claimed.release r.nonce).log e, rng)
        -- without a private key there is no answer, but the request counts as answered
        | (.error .exhausted, rng) => (.error .exhausted, claimed, rng)
  | .sealed | .unsealing _ =>
    (.error (.fault (.precondition "provisioning requires an unsealed enclave")), v, rng)

/-! ### The vault that asks -/

/-- The request for a session and a nonce, signed if someone vouches for the vault. -/
def requestFor (session : KeyPair) (nonce : Nonce) (identity : Option Identity) :
    Except IdentityFault KeyRequest :=
  match identity with
  | some identity => KeyRequest.signed session.publicKey nonce identity
  | none => .ok (.unsigned session.publicKey nonce)

/-- Asks for the master key. An earlier request is no longer waited for. -/
def request (stamp : Stamp) (v : Vault β) (rng : Entropy) :
    Except (Setback Refusal) KeyRequest × Vault β × Entropy :=
  match v.phase with
  | .unsealing session =>
    match Nonce.fresh rng with
    | (.error setback, rng) => (.error (setback.map .crypto), v, rng)
    | (.ok nonce, rng) =>
      match requestFor session nonce v.identity with
      | .error fault =>
        let reason := s!"identity layer could not sign request: {fault.message}"
        (.error (.fault (.precondition reason)), v, rng)
      | .ok r =>
        let e := Entry.ofStamp stamp .provisioningRequested
        (.ok r, { v with requestedNonce := some nonce }.log e, rng)
  | .sealed | .unsealed _ _ =>
    (.error (.fault (.precondition "provisioning can only be requested while unsealing")), v, rng)

/-- The master key in an answer to the request with a nonce. -/
def openBundle (suite : CipherSuite) (session : KeyPair) (bundle : Envelope) (nonce : Nonce) :
    Except Refusal SecretKey :=
  match bundle.unpack suite session nonce.toBytes with
  | .error fault => .error (.crypto fault)
  | .ok message =>
    match SecretKey.ofBytes? message with
    | .ok key => .ok key
    | .error fault => .error (.masterKey fault.message)

/-- Takes over the master key from an answer. Whether the answer can be opened or not, the request
is no longer waited for. -/
def takeOver (stamp : Stamp) (bundle : Envelope) (v : Vault β) : Except Refusal Unit × Vault β :=
  match v.phase with
  | .unsealing session =>
    if bundle.isEmpty then
      (.error (.precondition "empty bundle: the provider already served another request"), v)
    else
      match v.requestedNonce with
      | none => (.error (.precondition "no outstanding provisioning request"), v)
      | some nonce =>
        let v := { v with requestedNonce := none }
        match openBundle v.settings.suite session bundle nonce with
        | .error refusal =>
          (.error refusal, v.log ((Entry.ofStamp stamp .provisioned).failed refusal.message))
        | .ok masterKey =>
          (.ok (), (v.install session masterKey).log (Entry.ofStamp stamp .provisioned))
  | .sealed | .unsealed _ _ =>
    (.error (.precondition "provision requires an unsealing enclave"), v)

end QuorumVault.Vault
