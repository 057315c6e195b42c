import Mathlib.Tactic
import QuorumVault.Proofs.Token.Issuer
import QuorumVault.Proofs.Vault.Handover

/-!
# Runs

A `World` is a vault with the clock and the source of random bytes that it uses.  Whoever has the
vault may ask it for any `Operation`, and may validate tokens with transforms that themselves use
the vault; meanwhile time passes.  `Reaches` says which worlds come about in this way.

All that an operation can do to a vault is listed once, in `Change`.  What every change keeps holds
after every run (`Reaches.keeps`).
-/

namespace QuorumVault

namespace Vault

variable {ι : Type} {β : ι → Type} {v w : Vault β}

/-! ### Changes -/

/-- What can happen to a vault, apart from its journal. -/
inductive Change (v : Vault β) : Vault β → Prop where
  | nothing : Change v v
  | start (session : KeyPair) (hphase : v.phase.masterKey? = none) :
      Change v { v with phase := .unsealing session, shares := .empty, requestedNonce := none }
  | keep {session : KeyPair} {share : Share} (hphase : v.phase = .unsealing session)
      (hindex : share.index ≠ 0 ∧ share.index ≤ v.settings.shareCount) (hbytes : share.bytes ≠ []) :
      Change v { v with shares := v.shares.insert share }
  | reconstruct {session : KeyPair} (masterKey : SecretKey)
      (hphase : v.phase = .unsealing session) :
      Change v (v.install session masterKey)
  | sealOff :
      Change v { v with
        phase := .sealed
        shares := .empty
        servedNonce := none
        requestedNonce := none
        issuer := v.issuer.clear }
  /-- The master key is handed to a peer. -/
  | serve {session : KeyPair} {masterKey : SecretKey} (nonce : Nonce)
      (hphase : v.phase = .unsealed session masterKey) : Change v (v.claim nonce)
  /-- A peer is asked for the master key. -/
  | request {session : KeyPair} (nonce : Nonce) (hphase : v.phase = .unsealing session) :
      Change v { v with requestedNonce := some nonce }
  /-- A peer's answer cannot be opened. -/
  | spend {session : KeyPair} (hphase : v.phase = .unsealing session) :
      Change v { v with requestedNonce := none }
  /-- A peer's answer is opened. -/
  | takeOver {session : KeyPair} (masterKey : SecretKey) (hphase : v.phase = .unsealing session) :
      Change v ({ v with requestedNonce := none }.install session masterKey)
  | validate (issuer : Issuer β) (hverdicts : v.issuer.SameButVerdicts issuer)
      (hkeys : v.issuer.installed = none → issuer = v.issuer) :
      Change v { v with issuer := issuer }

/-- A change and what is recorded of it. -/
def Changes (v w : Vault β) : Prop := ∃ u, Change v u ∧ SameButJournal u w

theorem SameButJournal.changes (h : SameButJournal v w) : Changes v w := ⟨v, .nothing, h⟩

theorem Change.changes (h : Change v w) : Changes v w := ⟨w, h, .refl w⟩

theorem Change.changes_log (h : Change v w) (e : Entry) : Changes v (w.log e) := ⟨w, h, .log e w⟩

/-! ### What each operation changes -/

theorem changes_startSession (stamp : Stamp) (v : Vault β) (rng : Entropy) :
    Changes v (v.startSession stamp rng).2.1 := by
  rcases startSession_cases stamp v rng with ⟨session, rng', hphase, -, h⟩ | ⟨setback, rng', h⟩
  · rw [h]
    exact (Change.start session hphase).changes_log _
  · rw [h]
    exact Change.nothing.changes

theorem changes_submit (stamp : Stamp) (envelope : Envelope) (v : Vault β) :
    Changes v (v.submit stamp envelope).2 := by
  rcases submit_cases stamp envelope v with ⟨session, share, hphase, hopen, hindex, h⟩ | ⟨-, h⟩
  · obtain ⟨-, hzero, hbytes⟩ := Envelope.unpackShare_eq_ok_iff.mp hopen
    rw [h]
    exact (Change.keep hphase ⟨hzero, hindex⟩ hbytes).changes_log _
  · exact h.changes

theorem changes_reconstruct (stamp : Stamp) (v : Vault β) :
    Changes v (v.reconstruct stamp).2 := by
  rcases reconstruct_cases stamp v with ⟨session, secret, hphase, -, h⟩ | ⟨-, h⟩
  · rw [h]
    exact (Change.reconstruct _ hphase).changes_log _
  · exact h.changes

theorem changes_sealOff (stamp : Stamp) (v : Vault β) : Changes v (v.sealOff stamp).2 :=
  Change.sealOff.changes_log _

theorem changes_serve (stamp : Stamp) (r : KeyRequest) (v : Vault β) (rng : Entropy) :
    Changes v (v.serve stamp r rng).2.1 := by
  rcases serve_cases stamp r v rng with
    ⟨session, masterKey, bundle, rng', hphase, -, -, -, h⟩ | ⟨session, masterKey, rng', hphase, h⟩ |
      ⟨-, h⟩
  · rw [h]
    exact (Change.serve r.nonce hphase).changes_log _
  · rw [h]
    exact (Change.serve r.nonce hphase).changes
  · exact h.changes

theorem changes_request (stamp : Stamp) (v : Vault β) (rng : Entropy) :
    Changes v (v.request stamp rng).2.1 := by
  rcases request_cases stamp v rng with ⟨session, nonce, r, rng', hphase, -, h⟩ | ⟨setback, rng', h⟩
  · rw [h]
    exact (Change.request nonce hphase).changes_log _
  · rw [h]
    exact Change.nothing.changes

theorem changes_takeOver (stamp : Stamp) (bundle : Envelope) (v : Vault β) :
    Changes v (v.takeOver stamp bundle).2 := by
  by_cases hopens : Opens bundle v
  · obtain ⟨session, nonce, hphase, -, h⟩ := takeOver_of_opens stamp hopens
    rw [h]
    cases openBundle v.settings.suite session bundle nonce with
    | error refusal => exact (Change.spend hphase).changes_log _
    | ok masterKey => exact (Change.takeOver masterKey hphase).changes_log _
  · obtain ⟨refusal, h⟩ := takeOver_of_not_opens stamp hopens
    rw [h]
    exact Change.nothing.changes

theorem change_acceptsToken (now : Clock) (t : TokenHandle) (v : Vault β) :
    Change v (v.acceptsToken now t).2 :=
  .validate _ (Issuer.sameButVerdicts_valid now t v.issuer) fun h =>
    congrArg Prod.snd (Issuer.valid_of_installed_eq_none h now t)

theorem change_present [DecidableEq ι] (now : Clock) (t : TokenHandle) (i : ι) (v : Vault β) :
    Change v { v with issuer := (v.issuer.present now t i).2 } := by
  refine .validate _ (Issuer.sameButVerdicts_present now t i v.issuer) ?_
  intro h
  rw [Issuer.present_of_installed_eq_none h]

theorem change_settle (now : Clock) (t : TokenHandle) (i : ι) (serial : ℕ) (issuedAt : Timestamp)
    (value : Option (β i)) (v : Vault β) :
    Change v { v with issuer := (v.issuer.settle now t i serial issuedAt value).2 } := by
  refine .validate _ (Issuer.sameButVerdicts_settle now t i serial issuedAt value v.issuer) ?_
  intro h
  rw [Issuer.settle_of_installed_eq_none h]

end Vault

/-! ### Operations -/

/-- What a vault can be asked to do.  To validate a token is left to `Reaches`. -/
inductive Operation where
  | startSession (stamp : Stamp)
  | sessionKey
  | submit (stamp : Stamp) (envelope : Envelope)
  | reconstruct (stamp : Stamp)
  | sealOff (stamp : Stamp)
  | serve (stamp : Stamp) (r : KeyRequest)
  | request (stamp : Stamp)
  | takeOver (stamp : Stamp) (bundle : Envelope)
  | issueToken (payload : Bytes)
  | acceptsToken (t : TokenHandle)

/-- What a vault answers. -/
inductive Answer where
  | started (result : Except (Setback Refusal) Status)
  | key (result : Except Refusal PublicKey)
  | submitted (result : Except Refusal Status)
  | reconstructed (result : Except Refusal UnwrapStatus)
  | sealed (status : Status)
  | served (result : Except (Setback Refusal) Envelope)
  | requested (result : Except (Setback Refusal) KeyRequest)
  | takenOver (result : Except Refusal Unit)
  | issued (result : Except (Setback TokenFault) (Option String))
  | verdict (accepted : Bool)

/-- The vault answers that it did not do what it was asked for.  A request for the master key is not
answered at all if there is no private key to answer it with. -/
def Answer.isFailure : Answer → Bool
  | started (.ok status) | submitted (.ok status) | sealed status => !status.success
  | reconstructed (.ok status) => !status.success
  | served (.ok bundle) => bundle.isEmpty
  | served (.error .exhausted) => false
  | key (.ok _) | requested (.ok _) | takenOver (.ok _) | issued (.ok _) | verdict _ => false
  | started (.error _) | key (.error _) | submitted (.error _) | reconstructed (.error _)
  | served (.error (.fault _)) | requested (.error _) | takenOver (.error _)
  | issued (.error _) => true

/-- A vault, the time, and a source of random bytes. -/
structure World {ι : Type} (β : ι → Type) where
  vault : Vault β
  clock : Clock
  rng : Entropy

variable {ι : Type} {β : ι → Type} {w x y z : World β}

namespace Operation

/-- The answer to an operation, and the world after it. -/
def run (o : Operation) (w : World β) : Answer × World β :=
  match o with
  | startSession stamp =>
    let (result, v, rng) := w.vault.startSession stamp w.rng
    (.started result, { w with vault := v, rng := rng })
  | sessionKey => (.key w.vault.sessionKey, w)
  | submit stamp envelope =>
    let (result, v) := w.vault.submit stamp envelope
    (.submitted result, { w with vault := v })
  | reconstruct stamp =>
    let (result, v) := w.vault.reconstruct stamp
    (.reconstructed result, { w with vault := v })
  | sealOff stamp =>
    let (status, v) := w.vault.sealOff stamp
    (.sealed status, { w with vault := v })
  | serve stamp r =>
    let (result, v, rng) := w.vault.serve stamp r w.rng
    (.served result, { w with vault := v, rng := rng })
  | request stamp =>
    let (result, v, rng) := w.vault.request stamp w.rng
    (.requested result, { w with vault := v, rng := rng })
  | takeOver stamp bundle =>
    let (result, v) := w.vault.takeOver stamp bundle
    (.takenOver result, { w with vault := v })
  | issueToken payload =>
    let (result, rng) := w.vault.issueToken payload w.clock.wall w.rng
    (.issued result, { w with rng := rng })
  | acceptsToken t =>
    let (accepted, v) := w.vault.acceptsToken w.clock t
    (.verdict accepted, { w with vault := v })

theorem changes_run (o : Operation) (w : World β) : Vault.Changes w.vault (o.run w).2.vault := by
  cases o with
  | startSession stamp => exact Vault.changes_startSession stamp w.vault w.rng
  | sessionKey => exact Vault.Change.nothing.changes
  | submit stamp envelope => exact Vault.changes_submit stamp envelope w.vault
  | reconstruct stamp => exact Vault.changes_reconstruct stamp w.vault
  | sealOff stamp => exact Vault.changes_sealOff stamp w.vault
  | serve stamp r => exact Vault.changes_serve stamp r w.vault w.rng
  | request stamp => exact Vault.changes_request stamp w.vault w.rng
  | takeOver stamp bundle => exact Vault.changes_takeOver stamp bundle w.vault
  | issueToken payload => exact Vault.Change.nothing.changes
  | acceptsToken t => exact (Vault.change_acceptsToken w.clock t w.vault).changes

end Operation

/-! ### Runs -/

namespace World

/-- Where the issuer and the clock of a world are. -/
def home : Issuer.Home (World β) β where
  issuer w := w.vault.issuer
  place issuer w := { w with vault := { w.vault with issuer := issuer } }
  clock := clock

variable [DecidableEq ι]

/-- The worlds that may come about in a run: time passes, random bytes are used up, the vault is
asked to do something, and tokens are validated with transforms that do such things themselves. -/
inductive Reaches : World β → World β → Prop where
  | refl (w : World β) : Reaches w w
  | elsewhere {x y : World β} (clock : Clock) (rng : Entropy) (h : Reaches x y) :
      Reaches x { y with clock := clock, rng := rng }
  | operation {x y : World β} (o : Operation) (h : Reaches x y) : Reaches x (o.run y).2
  | validate {x y : World β} (t : TokenHandle) (i : ι)
      (transform : Bytes → World β → Option (β i) × World β)
      (htransform : ∀ payload z, Reaches z (transform payload z).2) (h : Reaches x y) :
      Reaches x (Issuer.validateIn home t i transform y).2

/-- A transform that leaves the world alone is one that cannot see it. -/
theorem validateIn_of_forall_eq (t : TokenHandle) (i : ι) (transform : Bytes → Option (β i))
    (w : World β) :
    Issuer.validateIn home t i (fun payload z => (transform payload, z)) w =
      let (value, v) := w.vault.validateToken w.clock t i transform
      (value, { w with vault := v }) := by
  unfold Issuer.validateIn Vault.validateToken Issuer.validate
  rcases hpresented : (home.issuer w).present (home.clock w) t i with
    ⟨_ | value | ⟨serial, token⟩, issuer⟩
  · rw [show w.vault.issuer.present w.clock t i = _ from hpresented]
    rfl
  · rw [show w.vault.issuer.present w.clock t i = _ from hpresented]
    rfl
  · rw [show w.vault.issuer.present w.clock t i = _ from hpresented]
    rfl

theorem validateIn_of_installed_eq_none (h : w.vault.issuer.installed = none) (t : TokenHandle)
    (i : ι) (transform : Bytes → World β → Option (β i) × World β) :
    Issuer.validateIn home t i transform w = (none, w) := by
  unfold Issuer.validateIn
  rw [show (home.issuer w).present (home.clock w) t i = _ from
    Issuer.present_of_installed_eq_none h w.clock t i]
  rfl

/-- What every change of a vault keeps, a validation keeps as well if its transform does. -/
theorem validateIn_keeps {P : Vault β → Prop} (hchange : ∀ {v w}, Vault.Change v w → P v → P w)
    (t : TokenHandle) {i : ι} {transform : Bytes → World β → Option (β i) × World β}
    (htransform : ∀ payload z, P z.vault → P (transform payload z).2.vault) (w : World β)
    (hw : P w.vault) : P (Issuer.validateIn home t i transform w).2.vault := by
  have hpresent := hchange (Vault.change_present w.clock t i w.vault) hw
  unfold Issuer.validateIn
  rcases hpresented : (home.issuer w).present (home.clock w) t i with
    ⟨_ | value | ⟨serial, token⟩, issuer⟩
  · rw [show w.vault.issuer.present w.clock t i = _ from hpresented] at hpresent
    exact hpresent
  · rw [show w.vault.issuer.present w.clock t i = _ from hpresented] at hpresent
    exact hpresent
  · rw [show w.vault.issuer.present w.clock t i = _ from hpresented] at hpresent
    exact hchange (Vault.change_settle _ t i serial token.issuedAt _ _)
      (htransform token.payload _ hpresent)

/-- What every change of a vault keeps holds after every run, whatever happens to the journal. -/
theorem Reaches.keeps {P : Vault β → Prop} (hchange : ∀ {v w}, Vault.Change v w → P v → P w)
    (hjournal : ∀ {v w}, Vault.SameButJournal v w → P v → P w) (h : Reaches x y) (hx : P x.vault) :
    P y.vault := by
  -- a transform keeps `P` wherever it starts, and so its hypothesis is about all starting points
  induction h with
  | refl w => exact hx
  | elsewhere clock rng h ih => exact ih hx
  | operation o h ih =>
    obtain ⟨u, hu, hrecord⟩ := o.changes_run _
    exact hjournal hrecord (hchange hu (ih hx))
  | validate t i transform htransform h ihtransform ih =>
    exact validateIn_keeps hchange t (fun payload z hz => ihtransform payload z hz) _ (ih hx)

end World

end QuorumVault
