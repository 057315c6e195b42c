import Mathlib.Tactic
import QuorumVault.Proofs.Vault.Lifecycle

/-!
# A vault among others

With a vault goes what an observer knows of it (`Peer`): the request that it has issued last, as
long as nothing has overtaken it (`Operation.outstanding`), and where the chain of hand-overs began
by which it came by its master key (`Origin`).  A `Handover` is an answer to a request, with the
vault that gave it.

What is known of a vault is right after every operation (`Peer.Good.run`) and after it has taken
over from an answer to its request (`Peer.Good.deliver`): the outstanding request asks for the
session and the nonce of the vault, and the master key is the one with which the chain began.
-/

namespace QuorumVault

/-! ### What is known of a vault -/

/-- Where a chain of hand-overs began. -/
structure Origin (ν : Type) where
  /-- The vault that came by its master key without a hand-over. -/
  first : ν
  masterKey : SecretKey

/-- A vault, and what is known of it. -/
structure Peer (ν : Type) {ι : Type} (β : ι → Type) where
  world : World β
  /-- The request that the vault has issued, as long as it is outstanding. -/
  waiting : Option KeyRequest
  origin : Option (Origin ν)

/-- An answer to a request. -/
structure Handover (ν : Type) {ι : Type} (β : ι → Type) where
  /-- The vault that answered, as it was when it did. -/
  provider : Peer ν β
  request : KeyRequest
  bundle : Envelope

variable {ν ι : Type} {β : ι → Type}

/-- The request that is outstanding after an operation.  It is overtaken by a new request, a new
session, a seal, a master key that is reconstructed, and an answer that is tried. -/
def Operation.outstanding (o : Operation) (answer : Answer) (waiting : Option KeyRequest) :
    Option KeyRequest :=
  match o, answer with
  | .request _, .requested (.ok r) => some r
  | .startSession _, .started (.ok _) => none
  | .sealOff _, _ => none
  | .reconstruct _, .reconstructed (.ok status) => if status.success then none else waiting
  | .takeOver _ bundle, _ => if bundle.isEmpty then waiting else none
  | _, _ => waiting

namespace Peer

variable {p : Peer ν β}

/-- Where the chain began by which a vault, once it is `v`, has come by its master key.  A vault
that comes by one without a hand-over begins a chain, and one that loses it leaves its chain. -/
def originAt (e : ν) (v : Vault β) (p : Peer ν β) : Option (Origin ν) :=
  match p.world.vault.phase.masterKey?, v.phase.masterKey? with
  | _, none => none
  | none, some masterKey => some ⟨e, masterKey⟩
  | some _, some _ => p.origin

def run (e : ν) (o : Operation) (p : Peer ν β) : Answer × Peer ν β :=
  let (answer, w) := o.run p.world
  (answer, ⟨w, o.outstanding answer p.waiting, p.originAt e w.vault⟩)

/-- The vault after it has taken over from an answer to the request that it waits for. -/
def deliver (stamp : Stamp) (a : Handover ν β) (p : Peer ν β) : Peer ν β where
  world := { p.world with vault := (p.world.vault.takeOver stamp a.bundle).2 }
  waiting := none
  origin := a.provider.origin

/-- The answer of a vault to a request, if it handed its master key over. -/
def handover? (o : Operation) (answer : Answer) (p : Peer ν β) : Option (Handover ν β) :=
  match o, answer with
  | .serve _ r, .served (.ok bundle) => if bundle.isEmpty then none else some ⟨p, r, bundle⟩
  | _, _ => none

end Peer

/-! ### The invariant -/

/-- The request asks for an answer in the session of the vault, and to the nonce for which it
waits. -/
def Vault.AsksBy (r : KeyRequest) (v : Vault β) : Prop :=
  ∃ session, v.phase = .unsealing session ∧ r.sessionKey = session.publicKey ∧
    v.requestedNonce = some r.nonce

/-- What is known of a vault is right. -/
structure Peer.Good (p : Peer ν β) : Prop where
  sound : ∃ u, Vault.Sound u p.world.vault
  waiting : ∀ r, p.waiting = some r → p.world.vault.AsksBy r
  origin : p.origin.map Origin.masterKey = p.world.vault.phase.masterKey?

/-- An answer is packed for its request, by a vault that is unsealed. -/
structure Handover.Packed (a : Handover ν β) : Prop where
  good : a.provider.Good
  packed : ∃ session masterKey suite rng rng',
    a.provider.world.vault.phase = .unsealed session masterKey ∧
      Envelope.pack suite a.request.sessionKey a.request.nonce.toBytes masterKey.toBytes rng =
        (.ok a.bundle, rng')

namespace Vault

variable {u v w : Vault β} {r : KeyRequest}

theorem AsksBy.of_eq (h : v.AsksBy r) (hphase : w.phase = v.phase)
    (hnonce : w.requestedNonce = v.requestedNonce) : w.AsksBy r := by
  rw [AsksBy, hphase, hnonce]
  exact h

theorem AsksBy.of_sameButJournal (h : v.AsksBy r) (hvw : SameButJournal v w) : w.AsksBy r :=
  h.of_eq hvw.phase_eq (by rw [hvw])

theorem AsksBy.masterKey?_eq (h : v.AsksBy r) : v.phase.masterKey? = none := by
  obtain ⟨session, hphase, -⟩ := h
  rw [hphase]
  rfl

theorem requestFor_eq_ok {session : KeyPair} {nonce : Nonce} {identity : Option Identity}
    (h : requestFor session nonce identity = .ok r) :
    r.sessionKey = session.publicKey ∧ r.nonce = nonce := by
  unfold requestFor at h
  cases identity with
  | none =>
    cases h
    exact ⟨rfl, rfl⟩
  | some identity =>
    dsimp only [KeyRequest.signed] at h
    split at h
    · cases h
      exact ⟨rfl, rfl⟩
    · cases h

/-- A vault that keeps having a master key keeps the one that it has. -/
theorem Change.masterKey?_eq {a b : SecretKey} (h : Change v w)
    (hv : v.phase.masterKey? = some a) (hw : w.phase.masterKey? = some b) : b = a := by
  -- only a vault without a master key comes by one
  cases h with
  | start session hphase => cases hw
  | reconstruct masterKey hphase =>
    rw [hphase] at hv
    cases hv
  | sealOff => cases hw
  | takeOver masterKey hphase =>
    rw [hphase] at hv
    cases hv
  | nothing | keep | serve | request | spend | validate =>
    exact Option.some.inj (hw.symm.trans hv)

/-- A vault takes over from an answer that was packed for the request for which it waits. -/
theorem takeOver_of_pack {masterKey : SecretKey} {suite : CipherSuite} {bundle : Envelope}
    {rng rng' : Entropy} (stamp : Stamp) (hasks : v.AsksBy r)
    (hpack : Envelope.pack suite r.sessionKey r.nonce.toBytes masterKey.toBytes rng =
      (.ok bundle, rng')) :
    ∃ session, v.phase = .unsealing session ∧ v.takeOver stamp bundle =
      (.ok (), ({ v with requestedNonce := none }.install session masterKey).log
        (Entry.ofStamp stamp .provisioned)) := by
  obtain ⟨session, hphase, hkey, hnonce⟩ := hasks
  have hopens : Opens bundle v :=
    ⟨⟨session, hphase⟩, Envelope.isEmpty_of_pack hpack, by rw [hnonce]; rfl⟩
  obtain ⟨session', nonce, hphase', hnonce', h⟩ := takeOver_of_opens stamp hopens
  cases hphase.symm.trans hphase'
  cases hnonce.symm.trans hnonce'
  have hopen : openBundle v.settings.suite session bundle r.nonce = .ok masterKey := by
    rw [hkey] at hpack
    -- there is only one suite
    cases hsuite : v.settings.suite
    cases suite
    exact openBundle_eq_ok_iff.mpr (Envelope.unpack_of_pack hpack)
  refine ⟨session, hphase, ?_⟩
  rw [h, hopen]

end Vault

namespace Peer

variable {p : Peer ν β} {e : ν} {o : Operation}

/-- A request that is still outstanding after an operation is the one of the vault. -/
theorem asksBy_run {w : World β} {waiting : Option KeyRequest}
    (hw : ∀ r, waiting = some r → w.vault.AsksBy r) (o : Operation) {r : KeyRequest}
    (h : o.outstanding (o.run w).1 waiting = some r) : (o.run w).2.vault.AsksBy r := by
  cases o with
  | startSession stamp =>
    dsimp only [Operation.run] at h ⊢
    rcases Vault.startSession_cases stamp w.vault w.rng with
      ⟨session, rng', -, -, hstart⟩ | ⟨setback, rng', hstart⟩
    · rw [hstart] at h
      cases h
    · rw [hstart] at h ⊢
      exact hw r h
  | sessionKey => exact hw r h
  | submit stamp envelope =>
    have hasks := hw r h
    dsimp only [Operation.run]
    rcases Vault.submit_cases stamp envelope w.vault with
      ⟨session, share, -, -, -, hkeep⟩ | ⟨-, hsame⟩
    · rw [hkeep]
      exact hasks.of_eq rfl rfl
    · exact hasks.of_sameButJournal hsame
  | reconstruct stamp =>
    dsimp only [Operation.run] at h ⊢
    rcases Vault.reconstruct_cases stamp w.vault with
      ⟨session, secret, -, -, hdone⟩ | ⟨hanswer, hsame⟩
    · rw [hdone] at h
      cases h
    · refine (hw r ?_).of_sameButJournal hsame
      cases hresult : (w.vault.reconstruct stamp).1 with
      | error refusal =>
        rw [hresult] at h
        exact h
      | ok status =>
        rw [hresult] at h
        simp only [Operation.outstanding, hanswer status hresult] at h
        exact h
  | sealOff stamp => cases h
  | serve stamp q =>
    have hasks := hw r h
    dsimp only [Operation.run]
    rcases Vault.serve_cases stamp q w.vault w.rng with
      ⟨session, masterKey, bundle, rng', hphase, -, -, -, hserve⟩ |
        ⟨session, masterKey, rng', hphase, hserve⟩ | ⟨-, hsame⟩
    · rw [hserve]
      exact hasks.of_eq rfl rfl
    · rw [hserve]
      exact hasks.of_eq rfl rfl
    · exact hasks.of_sameButJournal hsame
  | request stamp =>
    dsimp only [Operation.run] at h ⊢
    rcases Vault.request_cases stamp w.vault w.rng with
      ⟨session, nonce, q, rng', hphase, hq, hrequest⟩ | ⟨setback, rng', hrequest⟩
    · rw [hrequest] at h ⊢
      obtain rfl : q = r := Option.some.inj h
      obtain ⟨hkey, rfl⟩ := Vault.requestFor_eq_ok hq
      exact ⟨session, hphase, hkey, rfl⟩
    · rw [hrequest] at h ⊢
      exact hw r h
  | takeOver stamp bundle =>
    dsimp only [Operation.run] at h ⊢
    cases hempty : bundle.isEmpty with
    | true =>
      have hnot : ¬Vault.Opens bundle w.vault := by
        rintro ⟨-, hfull, -⟩
        rw [hempty] at hfull
        cases hfull
      obtain ⟨refusal, htake⟩ := Vault.takeOver_of_not_opens stamp hnot
      simp only [Operation.outstanding, hempty, if_true] at h
      rw [htake]
      exact hw r h
    | false =>
      simp only [Operation.outstanding, hempty, Bool.false_eq_true, if_false] at h
      cases h
  | issueToken payload => exact hw r h
  | acceptsToken t => exact (hw r h).of_eq rfl rfl

theorem Good.run (hp : p.Good) (e : ν) (o : Operation) : (p.run e o).2.Good where
  sound := by
    obtain ⟨u, hu⟩ := hp.sound
    obtain ⟨v, hchange, hrecord⟩ := o.changes_run p.world
    exact ⟨u, (hchange.sound hu).of_sameButJournal hrecord⟩
  waiting r hr := asksBy_run hp.waiting o hr
  origin := by
    obtain ⟨v, hchange, hrecord⟩ := o.changes_run p.world
    have hphase := hrecord.phase_eq
    change (p.originAt e (o.run p.world).2.vault).map _ = (o.run p.world).2.vault.phase.masterKey?
    rw [originAt, hphase]
    cases hafter : v.phase.masterKey? with
    | none => rfl
    | some b =>
      cases hbefore : p.world.vault.phase.masterKey? with
      | none => rfl
      | some a =>
        dsimp only
        rw [hp.origin, hbefore, hchange.masterKey?_eq hbefore hafter]

/-- Time passes at a vault, and random bytes are used up. -/
theorem Good.elsewhere (hp : p.Good) (clock : Clock) (rng : Entropy) :
    Good { p with world := { p.world with clock := clock, rng := rng } } :=
  ⟨hp.sound, hp.waiting, hp.origin⟩

/-- Verdicts on tokens are remembered or forgotten. -/
theorem Good.verdicts {issuer : Issuer β} (hp : p.Good)
    (hverdicts : p.world.vault.issuer.SameButVerdicts issuer)
    (hkeys : p.world.vault.issuer.installed = none → issuer = p.world.vault.issuer) :
    Good { p with world := World.home.place issuer p.world } where
  sound := hp.sound.imp fun _ hu => hu.validate hverdicts hkeys
  waiting r hr := (hp.waiting r hr).of_eq rfl rfl
  origin := hp.origin

theorem Good.deliver {a : Handover ν β} (hp : p.Good) (stamp : Stamp) (ha : a.Packed)
    (hwaiting : p.waiting = some a.request) : (p.deliver stamp a).Good := by
  obtain ⟨session, masterKey, suite, rng, rng', hprovider, hpack⟩ := ha.packed
  obtain ⟨own, hphase, htake⟩ := Vault.takeOver_of_pack stamp (hp.waiting _ hwaiting) hpack
  refine ⟨?_, nofun, ?_⟩
  · obtain ⟨u, hu⟩ := hp.sound
    obtain ⟨v, hchange, hrecord⟩ := Vault.changes_takeOver stamp a.bundle p.world.vault
    exact ⟨u, (hchange.sound hu).of_sameButJournal hrecord⟩
  · change a.provider.origin.map _ = (p.world.vault.takeOver stamp a.bundle).2.phase.masterKey?
    rw [ha.good.origin, hprovider, htake]
    rfl

/-- A vault hands its master key over only if it is unsealed, and packed for the request. -/
theorem Good.packed {a : Handover ν β} {o : Operation} (hp : p.Good)
    (h : p.handover? o (o.run p.world).1 = some a) : a.Packed := by
  cases o with
  | serve stamp r =>
    dsimp only [Operation.run] at h
    rcases Vault.serve_cases stamp r p.world.vault p.world.rng with
      ⟨session, masterKey, bundle, rng', hphase, -, -, hpack, hserve⟩ |
        ⟨session, masterKey, rng', -, hserve⟩ | ⟨hempty, -⟩
    · rw [hserve] at h
      simp only [handover?, Envelope.isEmpty_of_pack hpack, Bool.false_eq_true, if_false] at h
      cases h
      exact ⟨hp, session, masterKey, _, _, rng', hphase, hpack⟩
    · rw [hserve] at h
      cases h
    · cases hresult : (p.world.vault.serve stamp r p.world.rng).1 with
      | error setback =>
        rw [hresult] at h
        cases h
      | ok bundle =>
        rw [hresult, hempty bundle hresult] at h
        cases h
  | _ => cases h

end Peer

end QuorumVault
