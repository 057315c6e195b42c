import Mathlib.Logic.Function.Basic
import Mathlib.Tactic
import QuorumVault.Proofs.Draws
import QuorumVault.Proofs.Vault.Run

/-!
# Random bytes of a run

What each operation draws from the source of random bytes is said by a plan, which the operation
follows (`Operation.run_eq`).  The plan of an operation draws for the purposes that
`Operation.purposes` lists and for no others (`Operation.draws_eq`).

In a `Site.Run` any number of vaults use one source, shares are packed with it, and tokens are
validated with transforms that may do all of this themselves.  All that is drawn in such a run is
delivered by the source one after the other (`Site.Run.takes`), and so no byte is used twice
(`Site.Run.no_byte_twice`).
-/

namespace QuorumVault

/-! ### Envelopes -/

namespace Envelope

/-- An envelope takes an ephemeral secret, and then an initialisation vector. -/
def packPlan (suite : CipherSuite) (recipient : PublicKey) (associated message : Bytes) :
    Plan (Except (Setback CryptoFault) Envelope) :=
  .draw .ephemeral (.error .exhausted) fun ephemeral =>
    .attempt (recipient.encapsulateWith suite ephemeral) fun e =>
      .draw .iv (.error (.fault .random)) fun iv =>
        .attempt (SecretBox.lockWith e.key iv associated message) fun box =>
          .done (.ok (ofBox e.encapsulation box))

/-- The second draw is not made if the two keys share nothing. -/
def purposes (recipient : PublicKey) (rng : Entropy) : List Purpose :=
  if X25519.isContributory (X25519.exchange (rng.next 32) recipient.octets) then [.ephemeral, .iv]
  else [.ephemeral]

variable (suite : CipherSuite) (recipient : PublicKey) (associated message : Bytes) (rng : Entropy)

theorem pack_eq_outcome : pack suite recipient associated message rng =
    (packPlan suite recipient associated message).outcome rng := by
  unfold pack PublicKey.encapsulate SecretBox.lock packPlan
  simp only [bind_assoc]
  refine Plan.octets_bind .ephemeral _ (fun ephemeral rng => ?_) rng
  refine Plan.ofExcept_bind _ (fun e rng => ?_) rng
  refine Plan.octets_bind .iv _ (fun iv rng => ?_) rng
  refine Plan.ofExcept_bind _ (fun box rng => ?_) rng
  rfl

theorem draws_packPlan : (packPlan suite recipient associated message).draws rng =
    rng.drawAll (purposes recipient rng) := by
  have hencapsulate : recipient.encapsulateWith suite (rng.next 32) =
      if X25519.isContributory (X25519.exchange (rng.next 32) recipient.octets) then
        .ok ⟨Exchange.derive suite (X25519.exchange (rng.next 32) recipient.octets)
          (X25519.publicKey (rng.next 32)) recipient.octets, X25519.publicKey (rng.next 32)⟩
      else .error .nonContributory := by
    unfold PublicKey.encapsulateWith Exchange.agree
    dsimp only
    split_ifs <;> rfl
  unfold packPlan purposes
  split_ifs at hencapsulate ⊢ with hshared
  · refine Plan.draws_draw fun rng₁ => ?_
    rw [show recipient.encapsulateWith suite (rng.next Purpose.ephemeral.length) = _ from
      hencapsulate]
    refine Plan.draws_draw fun rng₂ => ?_
    exact Plan.draws_attempt _ (fun box rng => rfl) rng₂
  · refine Plan.draws_draw fun rng₁ => ?_
    rw [show recipient.encapsulateWith suite (rng.next Purpose.ephemeral.length) = _ from
      hencapsulate]
    rfl

end Envelope

/-! ### Vaults -/

namespace Vault

variable {ι : Type} {β : ι → Type}

/-- A session takes its private key. -/
def startPlan (stamp : Stamp) (v : Vault β) : Plan (Except (Setback Refusal) Status × Vault β) :=
  match v.phase with
  | .unsealed _ _ =>
    .done (.error (.fault (.precondition "enclave is already unsealed; seal it first")), v)
  | .sealed | .unsealing _ =>
    .draw .session (.error .exhausted, v) fun secret =>
      .done (.ok (.ok 0), v.started stamp ⟨secret⟩)

theorem startSession_eq (stamp : Stamp) (v : Vault β) (rng : Entropy) :
    v.startSession stamp rng = (((v.startPlan stamp).outcome rng).1.1,
      ((v.startPlan stamp).outcome rng).1.2, ((v.startPlan stamp).outcome rng).2) := by
  have hgenerate : KeyPair.generate (ε := Refusal) rng =
      (Plan.draw .session (.error .exhausted) fun secret => .done (.ok ⟨secret⟩)).outcome rng := by
    refine Plan.octets_bind .session _ (fun secret rng => ?_) rng
    rfl
  unfold startSession startPlan
  rw [hgenerate]
  cases v.phase with
  | unsealed session masterKey => rfl
  | sealed | unsealing session =>
    unfold Plan.outcome Plan.run
    cases rng.draw? Purpose.session.length <;> rfl

/-- A request takes its nonce, and is signed only then. -/
def requestPlan (stamp : Stamp) (v : Vault β) :
    Plan (Except (Setback Refusal) KeyRequest × Vault β) :=
  match v.phase with
  | .unsealing session =>
    .draw .nonce (.error (.fault (.crypto .random)), v) fun octets =>
      match requestFor session ⟨octets⟩ v.identity with
      | .error fault =>
        let reason := s!"identity layer could not sign request: {fault.message}"
        .done (.error (.fault (.precondition reason)), v)
      | .ok r =>
        .done (.ok r, { v with requestedNonce := some ⟨octets⟩ }.log
          (Entry.ofStamp stamp .provisioningRequested))
  | .sealed | .unsealed _ _ =>
    .done (.error (.fault (.precondition "provisioning can only be requested while unsealing")), v)

theorem request_eq (stamp : Stamp) (v : Vault β) (rng : Entropy) :
    v.request stamp rng = (((v.requestPlan stamp).outcome rng).1.1,
      ((v.requestPlan stamp).outcome rng).1.2, ((v.requestPlan stamp).outcome rng).2) := by
  have hfresh : Nonce.fresh rng = (Plan.draw .nonce (.error (.fault .random)) fun octets =>
      .done (.ok ⟨octets⟩)).outcome rng := by
    refine Plan.octets_bind .nonce _ (fun octets rng => ?_) rng
    rfl
  unfold request requestPlan
  rw [hfresh]
  cases v.phase with
  | sealed | unsealed session masterKey => rfl
  | unsealing session =>
    unfold Plan.outcome Plan.run
    cases rng.draw? Purpose.nonce.length with
    | none => rfl
    | some drawn =>
      dsimp only [Plan.run]
      cases requestFor session ⟨drawn.1⟩ v.identity <;> rfl

/-- The answer to a request, and the vault after it. -/
def answered (stamp : Stamp) (r : KeyRequest) (v : Vault β) :
    Except (Setback CryptoFault) Envelope → Except (Setback Refusal) Envelope × Vault β
  | .ok bundle => (.ok bundle, (v.claim r.nonce).log (Entry.ofStamp stamp .provisioningServed))
  | .error (.fault fault) =>
    (.error (.fault (.crypto fault)),
      v.log ((Entry.ofStamp stamp .provisioningServed).failed fault.message))
  | .error .exhausted => (.error .exhausted, v.claim r.nonce)

/-- The master key is packed if the policy accepts the request and no other one has been answered.
-/
def servePlan (stamp : Stamp) (r : KeyRequest) (v : Vault β) :
    Plan (Except (Setback Refusal) Envelope × Vault β) :=
  match v.phase with
  | .unsealed _ masterKey =>
    match v.policy.check r with
    | .error refusal =>
      let e := (Entry.ofStamp stamp .provisioningRejected).failed refusal.message
      .done (.error (.fault refusal), v.log e)
    | .ok () =>
      match v.servedNonce with
      | some _ =>
        let details := Json.object [("reason", .string "nonce slot occupied")]
        .done (.ok .empty, v.log ((Entry.ofStamp stamp .provisioningDeclined).withDetails details))
      | none =>
        (Envelope.packPlan v.settings.suite r.sessionKey r.nonce.toBytes masterKey.toBytes).map
          (v.answered stamp r)
  | .sealed | .unsealing _ =>
    .done (.error (.fault (.precondition "provisioning requires an unsealed enclave")), v)

theorem serve_eq (stamp : Stamp) (r : KeyRequest) (v : Vault β) (rng : Entropy) :
    v.serve stamp r rng = (((v.servePlan stamp r).outcome rng).1.1,
      ((v.servePlan stamp r).outcome rng).1.2, ((v.servePlan stamp r).outcome rng).2) := by
  unfold servePlan
  cases hphase : v.phase with
  | sealed | unsealing session =>
    unfold serve
    rw [hphase]
    rfl
  | unsealed session masterKey =>
    cases hpolicy : v.policy.check r with
    | error refusal =>
      unfold serve
      rw [hphase]
      dsimp only
      rw [hpolicy]
      rfl
    | ok accepted =>
      cases hserved : v.servedNonce with
      | some nonce =>
        unfold serve
        rw [hphase]
        dsimp only
        rw [hpolicy, hserved]
        rfl
      | none =>
        rw [serve_of_unsealed stamp rng hphase hpolicy hserved, Envelope.pack_eq_outcome]
        dsimp only
        rw [Plan.outcome_map]
        generalize (Envelope.packPlan _ _ _ _).outcome rng = packed
        obtain ⟨(fault | _) | bundle, rng'⟩ := packed <;> rfl

/-- A token takes its initialisation vector, if there are keys for it. -/
def issuePlan (payload : Bytes) (now : Timestamp) (v : Vault β) :
    Plan (Except (Setback TokenFault) (Option String)) :=
  match v.issuer.installed with
  | none => .done (.ok none)
  | some i =>
    .draw .iv (.error (.fault (.crypto .random))) fun iv =>
      .attempt (Token.encodeWith i.keys iv payload now) fun text => .done (.ok (some text))

theorem issueToken_eq (payload : Bytes) (now : Timestamp) (v : Vault β) (rng : Entropy) :
    v.issueToken payload now rng = (v.issuePlan payload now).outcome rng := by
  unfold issueToken Issuer.issue issuePlan Token.encode
  cases v.issuer.installed with
  | none => rfl
  | some i =>
    simp only [bind_assoc]
    refine Plan.octets_bind .iv _ (fun iv rng => ?_) rng
    refine Plan.ofExcept_bind _ (fun text rng => ?_) rng
    rfl

end Vault

/-! ### Operations -/

variable {ι : Type} {β : ι → Type}

namespace Operation

/-- What an operation draws, and what it answers and leaves behind. -/
def plan (o : Operation) (v : Vault β) (clock : Clock) : Plan (Answer × Vault β) :=
  match o with
  | startSession stamp => (v.startPlan stamp).map fun (result, v) => (.started result, v)
  | sessionKey => .done (.key v.sessionKey, v)
  | submit stamp envelope =>
    let (result, v) := v.submit stamp envelope
    .done (.submitted result, v)
  | reconstruct stamp =>
    let (result, v) := v.reconstruct stamp
    .done (.reconstructed result, v)
  | sealOff stamp =>
    let (status, v) := v.sealOff stamp
    .done (.sealed status, v)
  | serve stamp r => (v.servePlan stamp r).map fun (result, v) => (.served result, v)
  | request stamp => (v.requestPlan stamp).map fun (result, v) => (.requested result, v)
  | takeOver stamp bundle =>
    let (result, v) := v.takeOver stamp bundle
    .done (.takenOver result, v)
  | issueToken payload => (v.issuePlan payload clock.wall).map fun result => (.issued result, v)
  | acceptsToken t =>
    let (accepted, v) := v.acceptsToken clock t
    .done (.verdict accepted, v)

/-- What the bytes that an operation draws are for. -/
def purposes (o : Operation) (w : World β) : List Purpose :=
  match o with
  | startSession _ =>
    match w.vault.phase with
    | .sealed | .unsealing _ => [.session]
    | .unsealed _ _ => []
  | serve _ r =>
    match w.vault.phase, w.vault.policy.check r, w.vault.servedNonce with
    | .unsealed _ _, .ok (), none => Envelope.purposes r.sessionKey w.rng
    | _, _, _ => []
  | request _ =>
    match w.vault.phase with
    | .unsealing _ => [.nonce]
    | .sealed | .unsealed _ _ => []
  | issueToken _ =>
    match w.vault.issuer.installed with
    | some _ => [.iv]
    | none => []
  | sessionKey | submit _ _ | reconstruct _ | sealOff _ | takeOver _ _ | acceptsToken _ => []

/-- What an operation draws. -/
def draws (o : Operation) (w : World β) : List Draw := (o.plan w.vault w.clock).draws w.rng

/-- An operation follows its plan. -/
theorem run_eq (o : Operation) (w : World β) :
    o.run w = (((o.plan w.vault w.clock).outcome w.rng).1.1,
      ⟨((o.plan w.vault w.clock).outcome w.rng).1.2, w.clock,
        ((o.plan w.vault w.clock).outcome w.rng).2⟩) := by
  cases o with
  | startSession stamp => simp only [run, plan, Plan.outcome_map, Vault.startSession_eq]
  | serve stamp r => simp only [run, plan, Plan.outcome_map, Vault.serve_eq]
  | request stamp => simp only [run, plan, Plan.outcome_map, Vault.request_eq]
  | issueToken payload => simp only [run, plan, Plan.outcome_map, Vault.issueToken_eq]
  | sessionKey | submit | reconstruct | sealOff | takeOver | acceptsToken => rfl

/-- An operation draws for its purposes, as long as the source can deliver. -/
theorem draws_eq (o : Operation) (w : World β) : o.draws w = w.rng.drawAll (o.purposes w) := by
  unfold draws
  cases o with
  | startSession stamp =>
    unfold plan purposes
    rw [Plan.draws_map, Vault.startPlan]
    cases w.vault.phase with
    | unsealed session masterKey => rfl
    | sealed | unsealing session => exact Plan.draws_draw fun rng => rfl
  | serve stamp r =>
    unfold plan purposes
    rw [Plan.draws_map, Vault.servePlan]
    cases w.vault.phase with
    | sealed | unsealing session => rfl
    | unsealed session masterKey =>
      dsimp only
      cases w.vault.policy.check r with
      | error refusal => rfl
      | ok accepted =>
        cases w.vault.servedNonce with
        | some nonce => rfl
        | none =>
          dsimp only
          rw [Plan.draws_map, Envelope.draws_packPlan]
  | request stamp =>
    unfold plan purposes
    rw [Plan.draws_map, Vault.requestPlan]
    cases w.vault.phase with
    | sealed | unsealed session masterKey => rfl
    | unsealing session =>
      refine Plan.draws_draw fun rng => ?_
      cases Vault.requestFor session ⟨w.rng.next Purpose.nonce.length⟩ w.vault.identity <;> rfl
  | issueToken payload =>
    unfold plan purposes
    rw [Plan.draws_map, Vault.issuePlan]
    cases w.vault.issuer.installed with
    | none => rfl
    | some i =>
      refine Plan.draws_draw fun rng => ?_
      exact Plan.draws_attempt _ (fun text rng => rfl) rng
  | sessionKey | submit | reconstruct | sealOff | takeOver | acceptsToken => rfl

theorem takes_draws (o : Operation) (w : World β) : Takes w.rng (o.draws w) (o.run w).2.rng := by
  rw [run_eq]
  exact Plan.takes_run _ w.rng

end Operation

/-! ### Runs -/

/-- Vaults that are called by names and use the same source of random bytes. -/
structure Site (ν : Type) {ι : Type} (β : ι → Type) where
  vaults : ν → Vault β
  clock : Clock
  rng : Entropy

namespace Site

variable {ν : Type} [DecidableEq ν]

/-- One of the vaults with what it uses. -/
def world (s : Site ν β) (e : ν) : World β := ⟨s.vaults e, s.clock, s.rng⟩

/-- The site after something has happened to one of the vaults. -/
def put (s : Site ν β) (e : ν) (w : World β) : Site ν β :=
  ⟨Function.update s.vaults e w.vault, w.clock, w.rng⟩

/-- Where the issuer of a vault is. -/
def home (e : ν) : Issuer.Home (Site ν β) β where
  issuer s := (s.vaults e).issuer
  place issuer s := s.put e { s.world e with vault := { s.vaults e with issuer := issuer } }
  clock := clock

variable [DecidableEq ι]

/-- What is drawn in the course of a validation: what its transform draws, if it comes to that. -/
def drawsWithin (e : ν) (t : TokenHandle) (i : ι) (within : Bytes → Site ν β → List Draw)
    (s : Site ν β) : List Draw :=
  match (s.vaults e).issuer.present s.clock t i with
  | (.decoded _ token, issuer) => within token.payload ((home e).place issuer s)
  | (.refused, _) | (.remembered _, _) => []

/-- What may happen at a site, and what is drawn in the course of it.  Whatever draws nothing may
happen to the vaults at any time. -/
inductive Run : Site ν β → List Draw → Site ν β → Prop where
  | refl (x : Site ν β) : Run x [] x
  | elsewhere {x y : Site ν β} {draws : List Draw} (vaults : ν → Vault β) (clock : Clock)
      (h : Run x draws y) : Run x draws { y with vaults := vaults, clock := clock }
  | operation {x y : Site ν β} {draws : List Draw} (e : ν) (o : Operation) (h : Run x draws y) :
      Run x (draws ++ o.draws (y.world e)) (y.put e (o.run (y.world e)).2)
  | packShare {x y : Site ν β} {draws : List Draw} (suite : CipherSuite) (recipient : PublicKey)
      (share : Share) (h : Run x draws y) :
      Run x (draws ++
          (Envelope.packPlan suite recipient Envelope.shareLabel share.toBytes).draws y.rng)
        { y with rng := (Envelope.packShare suite recipient share y.rng).2 }
  | validate {x y : Site ν β} {draws : List Draw} (e : ν) (t : TokenHandle) (i : ι)
      (transform : Bytes → Site ν β → Option (β i) × Site ν β)
      (within : Bytes → Site ν β → List Draw)
      (htransform : ∀ payload z, Run z (within payload z) (transform payload z).2)
      (h : Run x draws y) :
      Run x (draws ++ drawsWithin e t i within y)
        (Issuer.validateIn (home e) t i transform y).2

/-- A validation draws nothing but what its transform draws. -/
theorem takes_validateIn {e : ν} {t : TokenHandle} {i : ι}
    {transform : Bytes → Site ν β → Option (β i) × Site ν β}
    {within : Bytes → Site ν β → List Draw}
    (htransform : ∀ payload z, Takes z.rng (within payload z) (transform payload z).2.rng)
    (s : Site ν β) :
    Takes s.rng (drawsWithin e t i within s)
      (Issuer.validateIn (home e) t i transform s).2.rng := by
  unfold Issuer.validateIn drawsWithin
  -- what the cache remembers is answered without the transform
  have hhome : ((home e).issuer s).present ((home e).clock s) t i =
      (s.vaults e).issuer.present s.clock t i := rfl
  rw [hhome]
  rcases (s.vaults e).issuer.present s.clock t i with ⟨_ | value | ⟨serial, token⟩, issuer⟩
  · exact .nil s.rng
  · exact .nil s.rng
  · exact htransform token.payload ((home e).place issuer s)

/-- All that is drawn in a run is delivered by the source one after the other. -/
theorem Run.takes {x y : Site ν β} {draws : List Draw} (h : Run x draws y) :
    Takes x.rng draws y.rng := by
  induction h with
  | refl x => exact .nil x.rng
  | elsewhere vaults clock h ih => exact ih
  | @operation x y draws e o h ih => exact ih.append (o.takes_draws (y.world e))
  | packShare suite recipient share h ih =>
    refine ih.append ?_
    dsimp only
    rw [Envelope.packShare, Envelope.pack_eq_outcome]
    exact Plan.takes_run _ _
  | validate e t i transform within htransform h ihtransform ih =>
    exact ih.append (takes_validateIn ihtransform _)

/-- **No random byte is used twice.**  An operation follows its plan, in which it draws for its
purposes, one after the other and as long as the source can deliver; and so does whoever packs a
share.  What is drawn in the course of a run, by any of the vaults and also where something fails or
a transform draws, follows each other in the source without gaps.  No two draws of a run, and so no
two private keys, ephemeral secrets, initialisation vectors or nonces, have a byte of it in common.
-/
theorem no_byte_twice :
    (∀ (o : Operation) (w : World β),
      o.run w = (((o.plan w.vault w.clock).outcome w.rng).1.1,
        ⟨((o.plan w.vault w.clock).outcome w.rng).1.2, w.clock,
          ((o.plan w.vault w.clock).outcome w.rng).2⟩) ∧
      o.draws w = w.rng.drawAll (o.purposes w)) ∧
    (∀ (suite : CipherSuite) (recipient : PublicKey) (share : Share) (rng : Entropy),
      let plan := Envelope.packPlan suite recipient Envelope.shareLabel share.toBytes
      Envelope.packShare suite recipient share rng = plan.outcome rng ∧
        plan.draws rng = rng.drawAll (Envelope.purposes recipient rng)) ∧
    ∀ (x y : Site ν β) (draws : List Draw), Run x draws y →
      y.rng = { x.rng with position := x.rng.position + Draw.total draws } ∧
      (∀ before d after, draws = before ++ d :: after →
        d.start = x.rng.position + Draw.total before ∧
          d.bytes = Octets.ofFn fun i => x.rng.byteAt (d.start + i)) ∧
      draws.Pairwise fun d d' => Disjoint d.places d'.places := by
  refine ⟨fun o w => ⟨o.run_eq w, o.draws_eq w⟩, fun suite recipient share rng => ?_, ?_⟩
  · exact ⟨Envelope.pack_eq_outcome _ _ _ _ rng, Envelope.draws_packPlan _ _ _ _ rng⟩
  · intro x y draws h
    exact ⟨h.takes.eq, fun before d after => h.takes.start_eq, h.takes.pairwise_disjoint⟩

/-- Two vaults start a session each.  Too few bytes are then left for the nonce of a request, which
takes none of them. -/
theorem no_byte_twice_of_two_vaults :
    let v : Vault fun _ : Unit => Unit := .fresh .standard .alwaysAccept none
    let x : Site Bool fun _ : Unit => Unit :=
      ⟨fun _ => v, ⟨.ofSeconds 0, ⟨0⟩⟩, .ofBytes (List.replicate 80 0)⟩
    ∃ (draws : List Draw) (y : Site Bool fun _ : Unit => Unit), Run x draws y ∧
      draws.map (fun d => (d.purpose, d.start)) = [(.session, 0), (.session, 32)] ∧
        y.rng.position = 64 ∧ draws.Pairwise fun d d' => Disjoint d.places d'.places := by
  intro v x
  let stamp : Stamp := ⟨.zeros 16, .ofSeconds 0⟩
  have hrun := (((Run.refl x).operation false (.startSession stamp)).operation true
    (.startSession stamp)).operation true (.request stamp)
  obtain ⟨-, -, hdraws⟩ := no_byte_twice (ν := Bool) (β := fun _ : Unit => Unit)
  obtain ⟨-, -, hdisjoint⟩ := hdraws _ _ _ hrun
  exact ⟨_, _, hrun, rfl, rfl, hdisjoint⟩

end Site

end QuorumVault
