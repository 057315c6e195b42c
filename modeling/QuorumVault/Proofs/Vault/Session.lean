import Mathlib.Tactic
import QuorumVault.Proofs.Entropy
import QuorumVault.Proofs.Sharing.Share
import QuorumVault.Vault.Session

/-!
# What the operations of a session can do

Each operation either does its work, under the conditions that its lemma names, or it answers why it
does not.  In the latter case nothing but the journal changes (`SameButJournal`).
-/

namespace QuorumVault

theorem KeyPair.generate_eq_ok_iff {ε : Type} {session : KeyPair} {rng rng' : Entropy} :
    KeyPair.generate (ε := ε) rng = (.ok session, rng') ↔
      rng.draw? 32 = some (session.secret, rng') := by
  rw [generate, Drawing.bind_eq_ok_iff]
  simp only [Drawing.octets_eq_ok_iff, Drawing.pure_eq_ok_iff]
  constructor
  · rintro ⟨secret, _, h, rfl, rfl⟩
    exact h
  · exact fun h => ⟨session.secret, rng', h, rfl, rfl⟩

namespace Vault

variable {ι : Type} {β : ι → Type} {v w : Vault β}

/-! ### Fresh vaults -/

/-- A sealed vault of which nothing has been recorded. -/
def fresh (settings : Settings) (policy : Policy) (identity : Option Identity) : Vault β :=
  ⟨settings, policy, identity, .sealed, .empty, none, none, .ofPolicy settings.tokens,
    .empty settings.auditCapacity⟩

theorem ofSettings?_eq_ok_iff {settings : Settings} {policy : Policy} {identity : Option Identity} :
    ofSettings? settings policy identity = .ok v ↔
      settings.check = .ok () ∧ v = fresh settings policy identity := by
  unfold ofSettings?
  cases h : settings.check with
  | error fault => simp
  | ok => simp [fresh, eq_comm]

/-- The keys of the tokens. -/
def tokenKeys? (v : Vault β) : Option TokenKeys := v.issuer.installed.map (·.keys)

/-! ### Vaults that differ in their journal -/

/-- Nothing but the journal differs. -/
def SameButJournal (v w : Vault β) : Prop := w = { v with journal := w.journal }

namespace SameButJournal

theorem refl (v : Vault β) : SameButJournal v v := rfl

theorem log (e : Entry) (v : Vault β) : SameButJournal v (v.log e) := rfl

theorem settings_eq (h : SameButJournal v w) : w.settings = v.settings := by rw [h]

theorem identity_eq (h : SameButJournal v w) : w.identity = v.identity := by rw [h]

theorem phase_eq (h : SameButJournal v w) : w.phase = v.phase := by rw [h]

theorem shares_eq (h : SameButJournal v w) : w.shares = v.shares := by rw [h]

end SameButJournal

/-! ### Starting -/

/-- The vault in a session that has just been started. -/
def started (stamp : Stamp) (session : KeyPair) (v : Vault β) : Vault β :=
  { v with phase := .unsealing session, shares := .empty, requestedNonce := none }.log
    ((Entry.ofStamp stamp .unsealStarted).withShareCount 0)

theorem startSession_of_masterKey_eq_none (stamp : Stamp) {v : Vault β} (rng : Entropy)
    (h : v.phase.masterKey? = none) :
    v.startSession stamp rng =
      match KeyPair.generate rng with
      | (.error setback, rng) => (.error setback, v, rng)
      | (.ok session, rng) => (.ok (.ok 0), v.started stamp session, rng) := by
  cases hphase : v.phase with
  | sealed => rw [startSession, hphase]; rfl
  | unsealing session => rw [startSession, hphase]; rfl
  | unsealed session masterKey => rw [hphase] at h; cases h

/-- A session starts with a fresh key pair, unless the vault is unsealed or no key can be drawn. -/
theorem startSession_cases (stamp : Stamp) (v : Vault β) (rng : Entropy) :
    (∃ session rng', v.phase.masterKey? = none ∧
      KeyPair.generate (ε := Refusal) rng = (.ok session, rng') ∧
        v.startSession stamp rng = (.ok (.ok 0), v.started stamp session, rng')) ∨
      ∃ setback rng', v.startSession stamp rng = (.error setback, v, rng') := by
  cases hphase : v.phase.masterKey? with
  | none =>
    have h := startSession_of_masterKey_eq_none stamp rng hphase
    rcases hgenerate : KeyPair.generate (ε := Refusal) rng with ⟨setback | session, rng'⟩
    · exact .inr ⟨setback, rng', by rw [h, hgenerate]⟩
    · exact .inl ⟨session, rng', rfl, rfl, by rw [h, hgenerate]⟩
  | some masterKey =>
    right
    cases hphase' : v.phase with
    | sealed => rw [hphase'] at hphase; cases hphase
    | unsealing session => rw [hphase'] at hphase; cases hphase
    | unsealed session masterKey => exact ⟨_, rng, by rw [startSession, hphase']⟩

/-! ### Collecting shares -/

theorem submit_of_forall_ne {stamp : Stamp} {envelope : Envelope}
    (h : ∀ session, v.phase ≠ .unsealing session) :
    v.submit stamp envelope =
      (.error (.precondition "apply requires an unsealing enclave"), v) := by
  cases hphase : v.phase with
  | sealed => rw [submit, hphase]
  | unsealing session => exact absurd hphase (h session)
  | unsealed session masterKey => rw [submit, hphase]

/-- A share is kept if its envelope opens and its index may have been dealt, and rejected if not. -/
theorem submit_of_unsealing {session : KeyPair} (stamp : Stamp) (envelope : Envelope)
    (hphase : v.phase = .unsealing session) :
    (∃ fault, envelope.unpackShare v.settings.suite session = .error fault ∧
      v.submit stamp envelope =
        v.rejectShare stamp fault.message s!"share rejected: {fault.message}") ∨
    (∃ share, envelope.unpackShare v.settings.suite session = .ok share ∧
      v.settings.shareCount < share.index ∧
        v.submit stamp envelope =
          let cause := s!"share index {share.index} outside 1..={v.settings.shareCount}"
          v.rejectShare stamp cause cause) ∨
    ∃ share, envelope.unpackShare v.settings.suite session = .ok share ∧
      share.index ≤ v.settings.shareCount ∧
        v.submit stamp envelope = v.keepShare stamp share := by
  rw [submit, hphase]
  cases hopen : envelope.unpackShare v.settings.suite session with
  | error fault => exact .inl ⟨fault, rfl, by simp only [hopen]⟩
  | ok share =>
    by_cases hindex : v.settings.shareCount < share.index
    · refine .inr (.inl ⟨share, rfl, hindex, ?_⟩)
      simp only [hopen]
      exact if_pos hindex
    · refine .inr (.inr ⟨share, rfl, UInt8.not_lt.mp hindex, ?_⟩)
      simp only [hopen]
      exact if_neg hindex

/-- A share is kept, or nothing but the journal changes. -/
theorem submit_cases (stamp : Stamp) (envelope : Envelope) (v : Vault β) :
    (∃ session share, v.phase = .unsealing session ∧
      envelope.unpackShare v.settings.suite session = .ok share ∧
        share.index ≤ v.settings.shareCount ∧
          v.submit stamp envelope = v.keepShare stamp share) ∨
      (∀ status, (v.submit stamp envelope).1 = .ok status → status.success = false) ∧
        SameButJournal v (v.submit stamp envelope).2 := by
  by_cases hphase : ∃ session, v.phase = .unsealing session
  · obtain ⟨session, hphase⟩ := hphase
    rcases submit_of_unsealing stamp envelope hphase with
      ⟨fault, -, h⟩ | ⟨share, -, -, h⟩ | ⟨share, hopen, hindex, h⟩
    · right
      rw [h]
      exact ⟨fun status h => by cases h; rfl, rfl⟩
    · right
      rw [h]
      exact ⟨fun status h => by cases h; rfl, rfl⟩
    · exact .inl ⟨session, share, hphase, hopen, hindex, h⟩
  · right
    rw [submit_of_forall_ne (not_exists.mp hphase)]
    exact ⟨nofun, rfl⟩

/-! ### Reconstructing the master key -/

@[simp] theorem restoreShares_takeShares (v : Vault β) :
    v.takeShares.restoreShares v.shares = v := by
  rw [takeShares, restoreShares, ShareMap.empty_extend]

theorem reconstruct_of_forall_ne {stamp : Stamp} (h : ∀ session, v.phase ≠ .unsealing session) :
    v.reconstruct stamp =
      (.error (.precondition "unwrap requires an unsealing enclave"), v) := by
  cases hphase : v.phase with
  | sealed => rw [reconstruct, hphase]
  | unsealing session => exact absurd hphase (h session)
  | unsealed session masterKey => rw [reconstruct, hphase]

/-- The master key is reconstructed if enough shares are pending and they combine; if not, they stay
pending. -/
theorem reconstruct_of_unsealing {session : KeyPair} (stamp : Stamp)
    (hphase : v.phase = .unsealing session) :
    (v.pending < v.settings.threshold.toNat ∧
      v.reconstruct stamp = (.ok (.failure v.pending
        (Sharing.needed v.settings.threshold v.pending)), v)) ∨
    (∃ fault, v.settings.threshold.toNat ≤ v.pending ∧
      Sharing.combine v.settings.threshold v.shares = .error fault ∧
        v.reconstruct stamp =
          (.ok (.failure v.pending s!"shares did not combine: {fault.message}"),
            v.log (((Entry.ofStamp stamp .unwrapFailed).withShareCount v.pending).failed
              fault.message))) ∨
    ∃ secret, v.settings.threshold.toNat ≤ v.pending ∧
      Sharing.combine v.settings.threshold v.shares = .ok secret ∧
        v.reconstruct stamp =
          (.ok ⟨true, v.pending, v.identity.map (·.digest), ""⟩,
            (v.takeShares.install session (v.settings.derivation.derive secret)).log
              ((Entry.ofStamp stamp .unsealed).withShareCount v.pending)) := by
  rw [reconstruct, hphase]
  by_cases hcount : v.pending < v.settings.threshold.toNat
  · exact .inl ⟨hcount, if_pos hcount⟩
  · right
    cases hcombine : Sharing.combine v.settings.threshold v.shares with
    | error fault =>
      refine .inl ⟨fault, Nat.not_lt.mp hcount, rfl, (if_neg hcount).trans ?_⟩
      simp only [hcombine, restoreShares_takeShares]
      rfl
    | ok secret =>
      refine .inr ⟨secret, Nat.not_lt.mp hcount, rfl, (if_neg hcount).trans ?_⟩
      simp only [hcombine, Derivation.derive?_eq]
      rfl

/-- What an attempt to reconstruct the master key in a session comes to. -/
theorem reconstruct_eq {session : KeyPair} (stamp : Stamp) (hphase : v.phase = .unsealing session) :
    v.reconstruct stamp =
      if v.pending < v.settings.threshold.toNat then
        (.ok (.failure v.pending (Sharing.needed v.settings.threshold v.pending)), v)
      else
        match Sharing.combine v.settings.threshold v.shares with
        | .error fault =>
          (.ok (.failure v.pending s!"shares did not combine: {fault.message}"),
            v.log (((Entry.ofStamp stamp .unwrapFailed).withShareCount v.pending).failed
              fault.message))
        | .ok secret =>
          (.ok ⟨true, v.pending, v.identity.map (·.digest), ""⟩,
            (v.takeShares.install session (v.settings.derivation.derive secret)).log
              ((Entry.ofStamp stamp .unsealed).withShareCount v.pending)) := by
  rcases reconstruct_of_unsealing stamp hphase with
    ⟨hlt, h⟩ | ⟨fault, hle, hfault, h⟩ | ⟨secret, hle, hsecret, h⟩
  · rw [h, if_pos hlt]
  · rw [h, if_neg (by omega), hfault]
  · rw [h, if_neg (by omega), hsecret]

/-- The master key is reconstructed, or nothing but the journal changes. -/
theorem reconstruct_cases (stamp : Stamp) (v : Vault β) :
    (∃ session secret, v.phase = .unsealing session ∧
      Sharing.combine v.settings.threshold v.shares = .ok secret ∧
        v.reconstruct stamp =
          (.ok ⟨true, v.pending, v.identity.map (·.digest), ""⟩,
            (v.takeShares.install session (v.settings.derivation.derive secret)).log
              ((Entry.ofStamp stamp .unsealed).withShareCount v.pending))) ∨
      (∀ status, (v.reconstruct stamp).1 = .ok status → status.success = false) ∧
        SameButJournal v (v.reconstruct stamp).2 := by
  by_cases hphase : ∃ session, v.phase = .unsealing session
  · obtain ⟨session, hphase⟩ := hphase
    rcases reconstruct_of_unsealing stamp hphase with
      ⟨-, h⟩ | ⟨fault, -, -, h⟩ | ⟨secret, -, hcombine, h⟩
    · right
      rw [h]
      exact ⟨fun status h => by cases h; rfl, rfl⟩
    · right
      rw [h]
      exact ⟨fun status h => by cases h; rfl, rfl⟩
    · exact .inl ⟨session, secret, hphase, hcombine, h⟩
  · right
    rw [reconstruct_of_forall_ne (not_exists.mp hphase)]
    exact ⟨nofun, rfl⟩

end Vault

end QuorumVault
