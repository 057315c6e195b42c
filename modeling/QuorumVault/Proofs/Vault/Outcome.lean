import Mathlib.Tactic
import QuorumVault.Proofs.Vault.Run

/-!
# What can come of an operation

`Outcome` lists once, for each operation, how it may end: the answer, the entry that is recorded, if
there is one, and the vault apart from its journal.  Every operation ends in one of these ways
(`Operation.exists_outcome`), and in the same one whatever the journal holds: a vault writes its
journal, but never reads it (`Operation.run_withJournal`).
-/

namespace QuorumVault

variable {ι : Type} {β : ι → Type}

/-! ### Journals apart -/

namespace Vault

/-- Records an entry, if there is one. -/
def logged (entry : Option Entry) (v : Vault β) : Vault β :=
  match entry with
  | none => v
  | some e => v.log e

theorem sameButJournal_logged (entry : Option Entry) (v : Vault β) :
    SameButJournal v (v.logged entry) := by
  cases entry with
  | none => rfl
  | some e => rfl

@[simp] theorem phase_logged (entry : Option Entry) (v : Vault β) :
    (v.logged entry).phase = v.phase := (sameButJournal_logged entry v).phase_eq

@[simp] theorem shares_logged (entry : Option Entry) (v : Vault β) :
    (v.logged entry).shares = v.shares := (sameButJournal_logged entry v).shares_eq

@[simp] theorem servedNonce_logged (entry : Option Entry) (v : Vault β) :
    (v.logged entry).servedNonce = v.servedNonce := by
  rw [sameButJournal_logged entry v]

@[simp] theorem requestedNonce_logged (entry : Option Entry) (v : Vault β) :
    (v.logged entry).requestedNonce = v.requestedNonce := by
  rw [sameButJournal_logged entry v]

def withJournal (j : Journal) (v : Vault β) : Vault β := { v with journal := j }

end Vault

def World.withJournal (j : Journal) (w : World β) : World β :=
  { w with vault := w.vault.withJournal j }

/-- Records entries, the first one first. -/
def Journal.recordAll (entries : List Entry) (j : Journal) : Journal :=
  entries.foldl (fun j e => j.record e) j

/-- An entry is recorded after all others; if there is no room, the oldest one is dropped. -/
theorem Journal.exists_record (e : Entry) (j : Journal) :
    ∃ dropped : List Entry, dropped.length ≤ 1 ∧ (j.size ≠ j.limit → dropped = []) ∧
      dropped ++ (j.record e).entries = j.entries ++ [e] := by
  by_cases hfull : j.size = j.limit
  · refine ⟨j.entries.take 1, List.length_take_le 1 _, fun hroom => absurd hfull hroom, ?_⟩
    rw [record, ← size, if_pos hfull]
    dsimp only
    rw [← List.append_assoc, List.take_append_drop]
  · refine ⟨[], Nat.zero_le 1, fun _ => rfl, ?_⟩
    rw [record, ← size, if_neg hfull]
    rfl

/-! ### Outcomes -/

/-- How an operation on a vault may end: the answer, what is recorded, and the vault before that. -/
inductive Outcome (v : Vault β) : Operation → Answer → Option Entry → Vault β → Prop where
  | start {stamp : Stamp} (session : KeyPair) (hphase : v.phase.masterKey? = none) :
      Outcome v (.startSession stamp) (.started (.ok (.ok 0)))
        (some ((Entry.ofStamp stamp .unsealStarted).withShareCount 0))
        { v with phase := .unsealing session, shares := .empty, requestedNonce := none }
  | noStart {stamp : Stamp} (setback : Setback Refusal) :
      Outcome v (.startSession stamp) (.started (.error setback)) none v
  | sessionKey : Outcome v .sessionKey (.key v.sessionKey) none v
  | keep {stamp : Stamp} {envelope : Envelope} {session : KeyPair} {share : Share}
      (hphase : v.phase = .unsealing session)
      (hopen : envelope.unpackShare v.settings.suite session = .ok share)
      (hindex : share.index ≤ v.settings.shareCount) :
      Outcome v (.submit stamp envelope) (.submitted (.ok (.ok (v.shares.insert share).size)))
        (some (((Entry.ofStamp stamp .shareAccepted).withShareCount
          (v.shares.insert share).size).withDetails (.object [("index", .nat share.index.toNat),
            ("replaced", .bool (v.shares.contains share.index))])))
        { v with shares := v.shares.insert share }
  | reject {stamp : Stamp} {envelope : Envelope} {session : KeyPair}
      (hphase : v.phase = .unsealing session) (cause answer : String) :
      Outcome v (.submit stamp envelope) (.submitted (.ok (.failure v.pending answer)))
        (some (((Entry.ofStamp stamp .shareRejected).withShareCount v.pending).failed cause)) v
  | noSubmit {stamp : Stamp} {envelope : Envelope} (refusal : Refusal) :
      Outcome v (.submit stamp envelope) (.submitted (.error refusal)) none v
  | reconstruct {stamp : Stamp} {session : KeyPair} (masterKey : SecretKey)
      (hphase : v.phase = .unsealing session) :
      Outcome v (.reconstruct stamp)
        (.reconstructed (.ok ⟨true, v.pending, v.identity.map (·.digest), ""⟩))
        (some ((Entry.ofStamp stamp .unsealed).withShareCount v.pending))
        (v.install session masterKey)
  /-- Too few shares are pending. -/
  | early {stamp : Stamp} (answer : String) :
      Outcome v (.reconstruct stamp) (.reconstructed (.ok (.failure v.pending answer))) none v
  | noCombine {stamp : Stamp} (cause answer : String) :
      Outcome v (.reconstruct stamp) (.reconstructed (.ok (.failure v.pending answer)))
        (some (((Entry.ofStamp stamp .unwrapFailed).withShareCount v.pending).failed cause)) v
  | noReconstruct {stamp : Stamp} (refusal : Refusal) :
      Outcome v (.reconstruct stamp) (.reconstructed (.error refusal)) none v
  | sealOff {stamp : Stamp} :
      Outcome v (.sealOff stamp) (.sealed (.ok 0))
        (some ((Entry.ofStamp stamp .sealed).withShareCount 0))
        { v with
          phase := .sealed
          shares := .empty
          servedNonce := none
          requestedNonce := none
          issuer := v.issuer.clear }
  /-- The master key is handed over. -/
  | serve {stamp : Stamp} {r : KeyRequest} {session : KeyPair} {masterKey : SecretKey}
      {bundle : Envelope} {rng rng' : Entropy} (hphase : v.phase = .unsealed session masterKey)
      (hserved : v.servedNonce = none)
      (hpack : Envelope.pack v.settings.suite r.sessionKey r.nonce.toBytes masterKey.toBytes rng =
        (.ok bundle, rng')) :
      Outcome v (.serve stamp r) (.served (.ok bundle))
        (some (Entry.ofStamp stamp .provisioningServed)) (v.claim r.nonce)
  /-- No private key can be drawn for the answer. -/
  | breakOff {stamp : Stamp} {r : KeyRequest} {session : KeyPair} {masterKey : SecretKey}
      (hphase : v.phase = .unsealed session masterKey) (hserved : v.servedNonce = none) :
      Outcome v (.serve stamp r) (.served (.error .exhausted)) none (v.claim r.nonce)
  /-- The answer cannot be packed. -/
  | noPack {stamp : Stamp} {r : KeyRequest} (fault : CryptoFault) :
      Outcome v (.serve stamp r) (.served (.error (.fault (.crypto fault))))
        (some ((Entry.ofStamp stamp .provisioningServed).failed fault.message)) v
  /-- Another request has been answered. -/
  | decline {stamp : Stamp} {r : KeyRequest} :
      Outcome v (.serve stamp r) (.served (.ok .empty))
        (some ((Entry.ofStamp stamp .provisioningDeclined).withDetails
          (.object [("reason", .string "nonce slot occupied")]))) v
  /-- The policy does not accept the request. -/
  | refuse {stamp : Stamp} {r : KeyRequest} (refusal : Refusal) :
      Outcome v (.serve stamp r) (.served (.error (.fault refusal)))
        (some ((Entry.ofStamp stamp .provisioningRejected).failed refusal.message)) v
  | noServe {stamp : Stamp} {r : KeyRequest} (refusal : Refusal) :
      Outcome v (.serve stamp r) (.served (.error (.fault refusal))) none v
  | request {stamp : Stamp} {session : KeyPair} {nonce : Nonce} {r : KeyRequest}
      (hphase : v.phase = .unsealing session)
      (hrequest : Vault.requestFor session nonce v.identity = .ok r) :
      Outcome v (.request stamp) (.requested (.ok r))
        (some (Entry.ofStamp stamp .provisioningRequested)) { v with requestedNonce := some nonce }
  | noRequest {stamp : Stamp} (setback : Setback Refusal) :
      Outcome v (.request stamp) (.requested (.error setback)) none v
  | takeOver {stamp : Stamp} {bundle : Envelope} {session : KeyPair} {nonce : Nonce}
      {masterKey : SecretKey} (hphase : v.phase = .unsealing session)
      (hnonce : v.requestedNonce = some nonce) (hempty : bundle.isEmpty = false)
      (hopen : Vault.openBundle v.settings.suite session bundle nonce = .ok masterKey) :
      Outcome v (.takeOver stamp bundle) (.takenOver (.ok ()))
        (some (Entry.ofStamp stamp .provisioned))
        ({ v with requestedNonce := none }.install session masterKey)
  /-- The answer of a peer cannot be opened. -/
  | spend {stamp : Stamp} {bundle : Envelope} {session : KeyPair} {nonce : Nonce}
      {refusal : Refusal} (hphase : v.phase = .unsealing session)
      (hnonce : v.requestedNonce = some nonce) (hempty : bundle.isEmpty = false)
      (hopen : Vault.openBundle v.settings.suite session bundle nonce = .error refusal) :
      Outcome v (.takeOver stamp bundle) (.takenOver (.error refusal))
        (some ((Entry.ofStamp stamp .provisioned).failed refusal.message))
        { v with requestedNonce := none }
  | noTakeOver {stamp : Stamp} {bundle : Envelope} (reason : String)
      (hopens : ¬Vault.Opens bundle v) :
      Outcome v (.takeOver stamp bundle) (.takenOver (.error (.precondition reason))) none v
  | issueToken {payload : Bytes} (result : Except (Setback TokenFault) (Option String)) :
      Outcome v (.issueToken payload) (.issued result) none v
  | acceptsToken {t : TokenHandle} {issuer : Issuer β} (accepted : Bool)
      (hverdicts : v.issuer.SameButVerdicts issuer) :
      Outcome v (.acceptsToken t) (.verdict accepted) none { v with issuer := issuer }

namespace Outcome

variable {v u : Vault β} {o : Operation} {a : Answer} {entry : Option Entry}

theorem journal_eq (h : Outcome v o a entry u) : u.journal = v.journal := by
  cases h <;> rfl

end Outcome

/-! ### Every operation has an outcome -/

namespace Vault

variable {v : Vault β}

theorem exists_outcome_startSession (stamp : Stamp) (v : Vault β) (rng : Entropy) :
    ∃ a entry u rng', Outcome v (.startSession stamp) (.started a) entry u ∧
      ∀ j, (v.withJournal j).startSession stamp rng =
        (a, (u.withJournal j).logged entry, rng') := by
  cases hphase : v.phase.masterKey? with
  | some masterKey =>
    refine ⟨_, none, v, rng, .noStart (.fault (.precondition
      "enclave is already unsealed; seal it first")), ?_⟩
    intro j
    cases hphase' : v.phase with
    | sealed => rw [hphase'] at hphase; cases hphase
    | unsealing session => rw [hphase'] at hphase; cases hphase
    | unsealed session masterKey => simp only [startSession, withJournal, hphase', logged]
  | none =>
    have hstart (j : Journal) := startSession_of_masterKey_eq_none stamp (v := v.withJournal j) rng
      hphase
    rcases hgenerate : KeyPair.generate (ε := Refusal) rng with ⟨setback | session, rng'⟩
    · refine ⟨_, none, v, rng', .noStart setback, ?_⟩
      intro j
      rw [hstart, hgenerate]
      rfl
    · refine ⟨_, _, _, rng', .start session hphase, ?_⟩
      intro j
      rw [hstart, hgenerate]
      rfl

theorem exists_outcome_submit (stamp : Stamp) (envelope : Envelope) (v : Vault β) :
    ∃ a entry u, Outcome v (.submit stamp envelope) (.submitted a) entry u ∧
      ∀ j, (v.withJournal j).submit stamp envelope = (a, (u.withJournal j).logged entry) := by
  by_cases hphase : ∃ session, v.phase = .unsealing session
  · obtain ⟨session, hphase⟩ := hphase
    cases hopen : envelope.unpackShare v.settings.suite session with
    | error fault =>
      refine ⟨_, _, v, .reject hphase fault.message s!"share rejected: {fault.message}", ?_⟩
      intro j
      simp only [submit, withJournal, hphase, hopen]
      rfl
    | ok share =>
      by_cases hindex : v.settings.shareCount < share.index
      · let cause := s!"share index {share.index} outside 1..={v.settings.shareCount}"
        refine ⟨_, _, v, .reject hphase cause cause, ?_⟩
        intro j
        simp only [submit, withJournal, hphase, hopen, if_pos hindex]
        rfl
      · refine ⟨_, _, _, .keep hphase hopen (UInt8.not_lt.mp hindex), ?_⟩
        intro j
        simp only [submit, withJournal, hphase, hopen, if_neg hindex]
        rfl
  · refine ⟨_, none, v, .noSubmit (.precondition "apply requires an unsealing enclave"), ?_⟩
    intro j
    exact submit_of_forall_ne (v := v.withJournal j) (not_exists.mp hphase)

theorem exists_outcome_reconstruct (stamp : Stamp) (v : Vault β) :
    ∃ a entry u, Outcome v (.reconstruct stamp) (.reconstructed a) entry u ∧
      ∀ j, (v.withJournal j).reconstruct stamp = (a, (u.withJournal j).logged entry) := by
  by_cases hphase : ∃ session, v.phase = .unsealing session
  · obtain ⟨session, hphase⟩ := hphase
    by_cases hcount : v.pending < v.settings.threshold.toNat
    · refine ⟨_, none, v, .early (Sharing.needed v.settings.threshold v.pending), ?_⟩
      intro j
      simp only [reconstruct, withJournal, hphase]
      exact if_pos hcount
    · cases hcombine : Sharing.combine v.settings.threshold v.shares with
      | error fault =>
        refine ⟨_, _, v, .noCombine fault.message
          s!"shares did not combine: {fault.message}", ?_⟩
        intro j
        have hcombine' : Sharing.combine (v.withJournal j).settings.threshold
          (v.withJournal j).shares = .error fault := hcombine
        rw [reconstruct, show (v.withJournal j).phase = _ from hphase]
        refine (if_neg hcount).trans ?_
        simp only [hcombine', restoreShares_takeShares]
        rfl
      | ok secret =>
        refine ⟨_, _, _, .reconstruct (v.settings.derivation.derive secret) hphase, ?_⟩
        intro j
        have hcombine' : Sharing.combine (v.withJournal j).settings.threshold
          (v.withJournal j).shares = .ok secret := hcombine
        rw [reconstruct, show (v.withJournal j).phase = _ from hphase]
        refine (if_neg hcount).trans ?_
        simp only [hcombine', Derivation.derive?_eq]
        rfl
  · refine ⟨_, none, v, .noReconstruct (.precondition "unwrap requires an unsealing enclave"), ?_⟩
    intro j
    exact reconstruct_of_forall_ne (v := v.withJournal j) (not_exists.mp hphase)

theorem exists_outcome_serve (stamp : Stamp) (r : KeyRequest) (v : Vault β) (rng : Entropy) :
    ∃ a entry u rng', Outcome v (.serve stamp r) (.served a) entry u ∧
      ∀ j, (v.withJournal j).serve stamp r rng = (a, (u.withJournal j).logged entry, rng') := by
  by_cases hphase : ∃ session masterKey, v.phase = .unsealed session masterKey
  · obtain ⟨session, masterKey, hphase⟩ := hphase
    cases hpolicy : v.policy.check r with
    | error refusal =>
      refine ⟨_, _, v, rng, .refuse refusal, ?_⟩
      intro j
      simp only [serve, withJournal, hphase, hpolicy]
      rfl
    | ok =>
      cases hserved : v.servedNonce with
      | some nonce =>
        refine ⟨_, _, v, rng, .decline, ?_⟩
        intro j
        simp only [serve, withJournal, hphase, hpolicy, hserved]
        rfl
      | none =>
        have hserve (j : Journal) := serve_of_unsealed (v := v.withJournal j) stamp rng hphase
          hpolicy hserved
        rcases hpack : Envelope.pack v.settings.suite r.sessionKey r.nonce.toBytes
          masterKey.toBytes rng with ⟨(fault | _) | bundle, rng'⟩
        · refine ⟨_, _, v, rng', .noPack fault, ?_⟩
          intro j
          rw [hserve, show (v.withJournal j).settings = v.settings from rfl, hpack]
          rfl
        · refine ⟨_, none, _, rng', .breakOff hphase hserved, ?_⟩
          intro j
          rw [hserve, show (v.withJournal j).settings = v.settings from rfl, hpack]
          rfl
        · refine ⟨_, _, _, rng', .serve hphase hserved hpack, ?_⟩
          intro j
          rw [hserve, show (v.withJournal j).settings = v.settings from rfl, hpack]
          rfl
  · refine ⟨_, none, v, rng, .noServe (.precondition
      "provisioning requires an unsealed enclave"), ?_⟩
    intro j
    cases hphase' : v.phase with
    | sealed => simp only [serve, withJournal, hphase', logged]
    | unsealing session => simp only [serve, withJournal, hphase', logged]
    | unsealed session masterKey => exact absurd ⟨session, masterKey, hphase'⟩ hphase

theorem exists_outcome_request (stamp : Stamp) (v : Vault β) (rng : Entropy) :
    ∃ a entry u rng', Outcome v (.request stamp) (.requested a) entry u ∧
      ∀ j, (v.withJournal j).request stamp rng = (a, (u.withJournal j).logged entry, rng') := by
  by_cases hphase : ∃ session, v.phase = .unsealing session
  · obtain ⟨session, hphase⟩ := hphase
    rcases hnonce : Nonce.fresh rng with ⟨setback | nonce, rng'⟩
    · refine ⟨_, none, v, rng', .noRequest (setback.map .crypto), ?_⟩
      intro j
      simp only [request, withJournal, hphase, hnonce, logged]
    · cases hrequest : requestFor session nonce v.identity with
      | error fault =>
        refine ⟨_, none, v, rng', .noRequest (.fault (.precondition
          s!"identity layer could not sign request: {fault.message}")), ?_⟩
        intro j
        simp only [request, withJournal, hphase, hnonce, hrequest, logged]
      | ok r =>
        refine ⟨_, _, _, rng', .request hphase hrequest, ?_⟩
        intro j
        simp only [request, withJournal, hphase, hnonce, hrequest]
        rfl
  · refine ⟨_, none, v, rng, .noRequest (.fault (.precondition
      "provisioning can only be requested while unsealing")), ?_⟩
    intro j
    cases hphase' : v.phase with
    | sealed => simp only [request, withJournal, hphase', logged]
    | unsealing session => exact absurd ⟨session, hphase'⟩ hphase
    | unsealed session masterKey => simp only [request, withJournal, hphase', logged]

theorem exists_outcome_takeOver (stamp : Stamp) (bundle : Envelope) (v : Vault β) :
    ∃ a entry u, Outcome v (.takeOver stamp bundle) (.takenOver a) entry u ∧
      ∀ j, (v.withJournal j).takeOver stamp bundle = (a, (u.withJournal j).logged entry) := by
  cases hphase : v.phase with
  | sealed =>
    refine ⟨_, none, v, .noTakeOver "provision requires an unsealing enclave" ?_, ?_⟩
    · rintro ⟨⟨session, h⟩, -⟩
      rw [hphase] at h
      cases h
    · intro j
      simp only [takeOver, withJournal, hphase, logged]
  | unsealed session masterKey =>
    refine ⟨_, none, v, .noTakeOver "provision requires an unsealing enclave" ?_, ?_⟩
    · rintro ⟨⟨session, h⟩, -⟩
      rw [hphase] at h
      cases h
    · intro j
      simp only [takeOver, withJournal, hphase, logged]
  | unsealing session =>
    cases hempty : bundle.isEmpty with
    | true =>
      refine ⟨_, none, v, .noTakeOver
        "empty bundle: the provider already served another request" ?_, ?_⟩
      · rintro ⟨-, hfull, -⟩
        rw [hempty] at hfull
        cases hfull
      · intro j
        simp only [takeOver, withJournal, hphase, hempty, if_true, logged]
    | false =>
      cases hnonce : v.requestedNonce with
      | none =>
        refine ⟨_, none, v, .noTakeOver "no outstanding provisioning request" ?_, ?_⟩
        · rintro ⟨-, -, hsome⟩
          rw [hnonce] at hsome
          cases hsome
        · intro j
          simp only [takeOver, withJournal, hphase, hempty, hnonce, logged]
          rfl
      | some nonce =>
        have hopens (j : Journal) : Opens bundle (v.withJournal j) :=
          ⟨⟨session, hphase⟩, hempty, by rw [withJournal, hnonce]; rfl⟩
        have htake (j : Journal) := takeOver_of_opens stamp (hopens j)
        cases hopen : openBundle v.settings.suite session bundle nonce with
        | error refusal =>
          refine ⟨_, _, _, .spend hphase hnonce hempty hopen, ?_⟩
          intro j
          obtain ⟨session', nonce', hphase', hnonce', h⟩ := htake j
          cases hphase.symm.trans hphase'
          cases hnonce.symm.trans hnonce'
          rw [h, show (v.withJournal j).settings = v.settings from rfl, hopen]
          rfl
        | ok masterKey =>
          refine ⟨_, _, _, .takeOver hphase hnonce hempty hopen, ?_⟩
          intro j
          obtain ⟨session', nonce', hphase', hnonce', h⟩ := htake j
          cases hphase.symm.trans hphase'
          cases hnonce.symm.trans hnonce'
          rw [h, show (v.withJournal j).settings = v.settings from rfl, hopen]
          rfl

end Vault

namespace Operation

variable {w : World β}

/-- Every operation has an outcome, which does not depend on the journal. -/
theorem exists_outcome_withJournal (o : Operation) (w : World β) :
    ∃ entry u rng, Outcome w.vault o (o.run w).1 entry u ∧ ∀ j, o.run (w.withJournal j) =
      ((o.run w).1, ⟨(u.withJournal j).logged entry, w.clock, rng⟩) := by
  -- with its own journal the vault is the one that the operation has been run on
  cases o with
  | startSession stamp =>
    obtain ⟨a, entry, u, rng', h, hj⟩ := Vault.exists_outcome_startSession stamp w.vault w.rng
    obtain rfl : (w.vault.startSession stamp w.rng).1 = a :=
      congrArg Prod.fst (hj w.vault.journal)
    refine ⟨entry, u, rng', h, fun j => ?_⟩
    simp only [run, World.withJournal, hj]
  | sessionKey => exact ⟨none, w.vault, w.rng, .sessionKey, fun j => rfl⟩
  | submit stamp envelope =>
    obtain ⟨a, entry, u, h, hj⟩ := Vault.exists_outcome_submit stamp envelope w.vault
    obtain rfl : (w.vault.submit stamp envelope).1 = a := congrArg Prod.fst (hj w.vault.journal)
    refine ⟨entry, u, w.rng, h, fun j => ?_⟩
    simp only [run, World.withJournal, hj]
  | reconstruct stamp =>
    obtain ⟨a, entry, u, h, hj⟩ := Vault.exists_outcome_reconstruct stamp w.vault
    obtain rfl : (w.vault.reconstruct stamp).1 = a := congrArg Prod.fst (hj w.vault.journal)
    refine ⟨entry, u, w.rng, h, fun j => ?_⟩
    simp only [run, World.withJournal, hj]
  | sealOff stamp => exact ⟨_, _, w.rng, .sealOff, fun j => rfl⟩
  | serve stamp r =>
    obtain ⟨a, entry, u, rng', h, hj⟩ := Vault.exists_outcome_serve stamp r w.vault w.rng
    obtain rfl : (w.vault.serve stamp r w.rng).1 = a := congrArg Prod.fst (hj w.vault.journal)
    refine ⟨entry, u, rng', h, fun j => ?_⟩
    simp only [run, World.withJournal, hj]
  | request stamp =>
    obtain ⟨a, entry, u, rng', h, hj⟩ := Vault.exists_outcome_request stamp w.vault w.rng
    obtain rfl : (w.vault.request stamp w.rng).1 = a := congrArg Prod.fst (hj w.vault.journal)
    refine ⟨entry, u, rng', h, fun j => ?_⟩
    simp only [run, World.withJournal, hj]
  | takeOver stamp bundle =>
    obtain ⟨a, entry, u, h, hj⟩ := Vault.exists_outcome_takeOver stamp bundle w.vault
    obtain rfl : (w.vault.takeOver stamp bundle).1 = a := congrArg Prod.fst (hj w.vault.journal)
    refine ⟨entry, u, w.rng, h, fun j => ?_⟩
    simp only [run, World.withJournal, hj]
  | issueToken payload =>
    exact ⟨none, w.vault, (w.vault.issueToken payload w.clock.wall w.rng).2, .issueToken _,
      fun j => rfl⟩
  | acceptsToken t =>
    exact ⟨none, _, w.rng, .acceptsToken _ (Issuer.sameButVerdicts_valid w.clock t w.vault.issuer),
      fun j => rfl⟩

/-- What an operation records: what it leaves in an empty journal with room for it. -/
def records (o : Operation) (w : World β) : List Entry :=
  (o.run (w.withJournal (.empty 2))).2.vault.journal.entries

/-- Every operation has an outcome, and records the entry of its outcome and no other. -/
theorem exists_outcome (o : Operation) (w : World β) :
    ∃ entry u, Outcome w.vault o (o.run w).1 entry u ∧ (o.run w).2.vault = u.logged entry ∧
      o.records w = entry.toList := by
  obtain ⟨entry, u, rng, h, hj⟩ := o.exists_outcome_withJournal w
  refine ⟨entry, u, h, ?_, ?_⟩
  · have hvault : (o.run w).2.vault = (u.withJournal w.vault.journal).logged entry :=
      congrArg (fun x : Answer × World β => x.2.vault) (hj w.vault.journal)
    have hsame : u.withJournal w.vault.journal = u := by
      rw [← h.journal_eq]
      rfl
    rw [hvault, hsame]
  · rw [records, hj]
    cases entry with
    | none => rfl
    | some e => rfl

/-- The journal is only written: an operation answers the same and does the same to the rest of the
vault whatever has been recorded, and records the same. -/
theorem run_withJournal (o : Operation) (w : World β) (j : Journal) :
    o.run (w.withJournal j) =
      ((o.run w).1, (o.run w).2.withJournal (j.recordAll (o.records w))) := by
  obtain ⟨entry, u, rng, -, hj⟩ := o.exists_outcome_withJournal w
  have hrun : o.run w = ((o.run w).1, ⟨(u.withJournal w.vault.journal).logged entry, w.clock,
    rng⟩) := hj w.vault.journal
  have hworld := congrArg Prod.snd hrun
  rw [hj, hworld, records, hj]
  cases entry with
  | none => rfl
  | some e => rfl

/-- What an operation records is appended to the journal. -/
theorem journal_run (o : Operation) (w : World β) :
    (o.run w).2.vault.journal = w.vault.journal.recordAll (o.records w) := by
  have h := congrArg (fun x : Answer × World β => x.2.vault.journal)
    (o.run_withJournal w w.vault.journal)
  exact h

end Operation

end QuorumVault
