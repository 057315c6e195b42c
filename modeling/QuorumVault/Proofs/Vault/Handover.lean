import Mathlib.Tactic
import QuorumVault.Proofs.Envelope
import QuorumVault.Proofs.Vault.Session
import QuorumVault.Vault.Handover

/-!
# What the operations of a hand-over can do

A vault answers a request and notes it, or nothing but its journal changes (`serve_cases`); likewise
it issues a request or not (`request_cases`).  A bundle is opened only in a session with a request
that waits for an answer (`Opens`), which it uses up whether it is taken over or not
(`takeOver_of_opens`).
-/

namespace QuorumVault

/-- What is packed is not empty, since it carries the encapsulation of its key. -/
theorem Envelope.isEmpty_of_pack {suite : CipherSuite} {recipient : PublicKey}
    {associated message : Bytes} {envelope : Envelope} {rng rng' : Entropy}
    (h : pack suite recipient associated message rng = (.ok envelope, rng')) :
    envelope.isEmpty = false := by
  obtain ⟨ephemeral, iv, rng₁, -, -, h⟩ := pack_eq_ok_iff.mp h
  obtain ⟨e, box, -, -, rfl⟩ := packWith_eq_ok_iff.mp h
  have hlength : e.encapsulation.toList.length = 32 := e.encapsulation.length_toList
  have hne : e.encapsulation.toList.isEmpty = false := by
    cases h : e.encapsulation.toList with
    | nil => rw [h] at hlength; cases hlength
    | cons b bytes => rfl
  rw [isEmpty, ofBox, hne, Bool.false_and, Bool.false_and]

namespace Vault

variable {ι : Type} {β : ι → Type} {v : Vault β}

/-! ### The vault that is asked -/

@[simp] theorem release_claim (nonce : Nonce) (h : v.servedNonce = none) :
    (v.claim nonce).release nonce = v := by
  rw [release, claim, if_pos rfl, ← h]

/-- The answer to a request of an unsealed vault that accepts it. -/
theorem serve_of_unsealed {session : KeyPair} {masterKey : SecretKey} {r : KeyRequest}
    (stamp : Stamp) (rng : Entropy) (hphase : v.phase = .unsealed session masterKey)
    (hpolicy : v.policy.check r = .ok ()) (hserved : v.servedNonce = none) :
    v.serve stamp r rng =
      match Envelope.pack v.settings.suite r.sessionKey r.nonce.toBytes masterKey.toBytes rng with
      | (.ok bundle, rng) =>
        (.ok bundle, (v.claim r.nonce).log (Entry.ofStamp stamp .provisioningServed), rng)
      | (.error (.fault fault), rng) =>
        (.error (.fault (.crypto fault)),
          v.log ((Entry.ofStamp stamp .provisioningServed).failed fault.message), rng)
      | (.error .exhausted, rng) => (.error .exhausted, v.claim r.nonce, rng) := by
  rw [serve, hphase]
  rcases hpack : Envelope.pack v.settings.suite r.sessionKey r.nonce.toBytes masterKey.toBytes rng
    with ⟨(fault | _) | bundle, rng'⟩
  · simp only [hpolicy, hserved, hpack, release_claim r.nonce hserved]
  · simp only [hpolicy, hserved, hpack]
  · simp only [hpolicy, hserved, hpack]

/-- A request is answered and noted, or nothing but the journal changes and the answer is empty or
an error, or the answer does not come about for want of a private key. -/
theorem serve_cases (stamp : Stamp) (r : KeyRequest) (v : Vault β) (rng : Entropy) :
    (∃ session masterKey bundle rng', v.phase = .unsealed session masterKey ∧
      v.policy.check r = .ok () ∧ v.servedNonce = none ∧
        Envelope.pack v.settings.suite r.sessionKey r.nonce.toBytes masterKey.toBytes rng =
          (.ok bundle, rng') ∧
        v.serve stamp r rng =
          (.ok bundle, (v.claim r.nonce).log (Entry.ofStamp stamp .provisioningServed), rng')) ∨
      (∃ session masterKey rng', v.phase = .unsealed session masterKey ∧
        v.serve stamp r rng = (.error .exhausted, v.claim r.nonce, rng')) ∨
        (∀ bundle, (v.serve stamp r rng).1 = .ok bundle → bundle = .empty) ∧
          SameButJournal v (v.serve stamp r rng).2.1 := by
  cases hphase : v.phase with
  | sealed =>
    rw [serve, hphase]
    exact .inr (.inr ⟨nofun, rfl⟩)
  | unsealing session =>
    rw [serve, hphase]
    exact .inr (.inr ⟨nofun, rfl⟩)
  | unsealed session masterKey =>
    cases hpolicy : v.policy.check r with
    | error refusal =>
      rw [serve, hphase]
      simp only [hpolicy]
      exact .inr (.inr ⟨nofun, rfl⟩)
    | ok =>
      cases hserved : v.servedNonce with
      | some nonce =>
        rw [serve, hphase]
        simp only [hpolicy, hserved]
        exact .inr (.inr ⟨fun bundle h => by cases h; rfl, rfl⟩)
      | none =>
        rw [serve_of_unsealed stamp rng hphase hpolicy hserved]
        rcases hpack : Envelope.pack v.settings.suite r.sessionKey r.nonce.toBytes
          masterKey.toBytes rng with ⟨(fault | _) | bundle, rng'⟩
        · exact .inr (.inr ⟨nofun, rfl⟩)
        · exact .inr (.inl ⟨session, masterKey, rng', rfl, rfl⟩)
        · exact .inl ⟨session, masterKey, bundle, rng', rfl, rfl, rfl, hpack, rfl⟩

/-! ### The vault that asks -/

/-- A request is issued in a session, or nothing changes. -/
theorem request_cases (stamp : Stamp) (v : Vault β) (rng : Entropy) :
    (∃ session nonce r rng', v.phase = .unsealing session ∧
      requestFor session nonce v.identity = .ok r ∧
        v.request stamp rng =
          (.ok r, { v with requestedNonce := some nonce }.log
            (Entry.ofStamp stamp .provisioningRequested), rng')) ∨
      ∃ setback rng', v.request stamp rng = (.error setback, v, rng') := by
  cases hphase : v.phase with
  | sealed =>
    rw [request, hphase]
    exact .inr ⟨_, rng, rfl⟩
  | unsealed session masterKey =>
    rw [request, hphase]
    exact .inr ⟨_, rng, rfl⟩
  | unsealing session =>
    rw [request, hphase]
    rcases hnonce : Nonce.fresh rng with ⟨setback | nonce, rng'⟩
    · exact .inr ⟨_, rng', rfl⟩
    · cases hr : requestFor session nonce v.identity with
      | error fault =>
        simp only [hr]
        exact .inr ⟨_, rng', rfl⟩
      | ok r =>
        simp only [hr]
        exact .inl ⟨session, nonce, r, rng', rfl, hr, rfl⟩

/-- A bundle is opened to the master key that it was packed with. -/
theorem openBundle_eq_ok_iff {suite : CipherSuite} {session : KeyPair} {bundle : Envelope}
    {nonce : Nonce} {masterKey : SecretKey} :
    openBundle suite session bundle nonce = .ok masterKey ↔
      bundle.unpack suite session nonce.toBytes = .ok masterKey.toBytes := by
  unfold openBundle
  cases hunpack : bundle.unpack suite session nonce.toBytes with
  | error fault => simp
  | ok message =>
    simp only [Except.ok.injEq]
    constructor
    · intro h
      unfold SecretKey.ofBytes? at h
      cases hoctets : Octets.ofBytes? 32 message with
      | none =>
        rw [hoctets] at h
        cases h
      | some octets =>
        rw [hoctets] at h
        cases h
        exact (Octets.toList_ofBytes? hoctets).symm
    · rintro rfl
      rw [SecretKey.ofBytes?_toBytes]

/-- A vault tries to open a bundle: it has a session and a request, and the bundle is an answer. -/
def Opens (bundle : Envelope) (v : Vault β) : Prop :=
  (∃ session, v.phase = .unsealing session) ∧ bundle.isEmpty = false ∧
    v.requestedNonce.isSome = true

/-- A bundle that the vault does not try to open changes nothing. -/
theorem takeOver_of_not_opens {bundle : Envelope} (stamp : Stamp) (h : ¬Opens bundle v) :
    ∃ reason, v.takeOver stamp bundle = (.error (.precondition reason), v) := by
  cases hphase : v.phase with
  | sealed =>
    rw [takeOver, hphase]
    exact ⟨_, rfl⟩
  | unsealed session masterKey =>
    rw [takeOver, hphase]
    exact ⟨_, rfl⟩
  | unsealing session =>
    cases hempty : bundle.isEmpty with
    | true =>
      rw [takeOver, hphase]
      simp only [hempty]
      exact ⟨_, rfl⟩
    | false =>
      cases hnonce : v.requestedNonce with
      | none =>
        rw [takeOver, hphase]
        simp only [hempty, hnonce]
        exact ⟨_, rfl⟩
      | some nonce => exact absurd ⟨⟨session, hphase⟩, hempty, by rw [hnonce]; rfl⟩ h

/-- A bundle that the vault tries to open uses up the request, whether it opens or not. -/
theorem takeOver_of_opens {bundle : Envelope} (stamp : Stamp) (h : Opens bundle v) :
    ∃ session nonce, v.phase = .unsealing session ∧ v.requestedNonce = some nonce ∧
      v.takeOver stamp bundle =
        match openBundle v.settings.suite session bundle nonce with
        | .error refusal =>
          (.error refusal, { v with requestedNonce := none }.log
            ((Entry.ofStamp stamp .provisioned).failed refusal.message))
        | .ok masterKey =>
          (.ok (), ({ v with requestedNonce := none }.install session masterKey).log
            (Entry.ofStamp stamp .provisioned)) := by
  obtain ⟨⟨session, hphase⟩, hempty, hnonce⟩ := h
  obtain ⟨nonce, hnonce⟩ := Option.isSome_iff_exists.mp hnonce
  refine ⟨session, nonce, hphase, hnonce, ?_⟩
  rw [takeOver, hphase]
  simp only [hempty, hnonce]
  cases openBundle v.settings.suite session bundle nonce with
  | error refusal => rfl
  | ok masterKey => rfl

end Vault

end QuorumVault
