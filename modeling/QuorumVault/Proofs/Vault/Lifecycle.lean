import Mathlib.Tactic
import QuorumVault.Proofs.Vault.Run

/-!
# What a vault holds in each phase

After every run, a sealed vault is as it was when it was made; one that is being unsealed holds
shares that may have been dealt, but no keys and no verdicts; and an unsealed one holds no shares,
and its tokens are made under the keys of its master key (`lifecycle`).

The invariant is `Sound`.  It says for each cell of a vault in which phases the cell is empty, so
that a change of the vault has to be checked against each cell on its own (`Change.sound`).
-/

namespace QuorumVault.Vault

variable {ι : Type} {β : ι → Type} {u v w : Vault β}

/-! ### The invariant -/

/-- A vault holds what it may hold in its phase; `u` is the vault as it was made. -/
structure Sound (u v : Vault β) : Prop where
  settings_eq : v.settings = u.settings
  policy_eq : v.policy = u.policy
  identity_eq : v.identity = u.identity
  shares_eq : (∀ session, v.phase ≠ .unsealing session) → v.shares = .empty
  shares_dealt : ∀ share ∈ v.shares.shares,
    (share.index ≠ 0 ∧ share.index ≤ v.settings.shareCount) ∧ share.bytes ≠ []
  servedNonce_eq : v.phase.masterKey? = none → v.servedNonce = none
  requestedNonce_eq : v.phase = .sealed → v.requestedNonce = none
  tokenKeys_eq : v.tokenKeys? = v.phase.masterKey?.map TokenKeys.derive
  issuer_eq : v.phase.masterKey? = none → v.issuer.clear = v.issuer
  issuer_clear : v.issuer.clear = { u.issuer with installations := v.issuer.installations }

namespace Sound

theorem fresh (settings : Settings) (policy : Policy) (identity : Option Identity) :
    Sound (Vault.fresh settings policy identity : Vault β) (.fresh settings policy identity) where
  settings_eq := rfl
  policy_eq := rfl
  identity_eq := rfl
  shares_eq _ := rfl
  shares_dealt := by
    intro share hshare
    rw [Vault.fresh, ShareMap.shares_eq_nil_iff.mpr rfl] at hshare
    cases hshare
  servedNonce_eq _ := rfl
  requestedNonce_eq _ := rfl
  tokenKeys_eq := rfl
  issuer_eq _ := rfl
  issuer_clear := rfl

theorem of_sameButJournal (hvw : SameButJournal v w) (h : Sound u v) : Sound u w := by
  rw [hvw]
  exact { h with }

theorem installed_eq (h : Sound u v) (hphase : v.phase.masterKey? = none) :
    v.issuer.installed = none := by
  rw [← h.issuer_eq hphase]
  rfl

/-! ### What each change keeps -/

/-- No shares are as good as dealt ones. -/
theorem shares_dealt_empty {n : UInt8} : ∀ share ∈ ShareMap.empty.shares,
    (share.index ≠ 0 ∧ share.index ≤ n) ∧ share.bytes ≠ [] := by
  intro share hshare
  rw [ShareMap.shares_eq_nil_iff.mpr rfl] at hshare
  cases hshare

theorem start (h : Sound u v) (session : KeyPair) (hphase : v.phase.masterKey? = none) :
    Sound u { v with phase := .unsealing session, shares := .empty, requestedNonce := none } :=
  { h with
    shares_eq := fun _ => rfl
    shares_dealt := shares_dealt_empty
    servedNonce_eq := fun _ => h.servedNonce_eq hphase
    requestedNonce_eq := fun _ => rfl
    tokenKeys_eq := by
      have hkeys := h.tokenKeys_eq
      rw [hphase] at hkeys
      exact hkeys
    issuer_eq := fun _ => h.issuer_eq hphase }

theorem keep (h : Sound u v) {session : KeyPair} {share : Share}
    (hphase : v.phase = .unsealing session)
    (hindex : share.index ≠ 0 ∧ share.index ≤ v.settings.shareCount) (hbytes : share.bytes ≠ []) :
    Sound u { v with shares := v.shares.insert share } :=
  { h with
    shares_eq := fun hne => absurd hphase (hne session)
    shares_dealt := by
      intro s hs
      rcases ShareMap.mem_shares_insert.mp hs with rfl | ⟨-, hs⟩
      · exact ⟨hindex, hbytes⟩
      · exact h.shares_dealt s hs }

theorem install (h : Sound u v) (session : KeyPair) (masterKey : SecretKey) :
    Sound u (v.install session masterKey) :=
  { h with
    shares_eq := fun _ => rfl
    shares_dealt := shares_dealt_empty
    servedNonce_eq := nofun
    requestedNonce_eq := nofun
    tokenKeys_eq := rfl
    issuer_eq := nofun
    issuer_clear := by
      rw [Vault.install, Issuer.clear_install, h.issuer_clear]
      rfl }

theorem sealOff (h : Sound u v) :
    Sound u { v with
      phase := .sealed
      shares := .empty
      servedNonce := none
      requestedNonce := none
      issuer := v.issuer.clear } :=
  { h with
    shares_eq := fun _ => rfl
    shares_dealt := shares_dealt_empty
    servedNonce_eq := fun _ => rfl
    requestedNonce_eq := fun _ => rfl
    tokenKeys_eq := rfl
    issuer_eq := fun _ => rfl }

theorem claim (h : Sound u v) {session : KeyPair} {masterKey : SecretKey} (nonce : Nonce)
    (hphase : v.phase = .unsealed session masterKey) : Sound u (v.claim nonce) :=
  { h with
    servedNonce_eq := by
      intro hnone
      rw [Vault.claim, hphase] at hnone
      cases hnone }

theorem setRequestedNonce (h : Sound u v) {session : KeyPair} (nonce : Option Nonce)
    (hphase : v.phase = .unsealing session) : Sound u { v with requestedNonce := nonce } :=
  { h with
    requestedNonce_eq := by
      intro hsealed
      rw [show v.phase = .sealed from hsealed] at hphase
      cases hphase }

theorem validate (h : Sound u v) {issuer : Issuer β}
    (hverdicts : v.issuer.SameButVerdicts issuer)
    (hkeys : v.issuer.installed = none → issuer = v.issuer) :
    Sound u { v with issuer := issuer } :=
  { h with
    tokenKeys_eq := by
      rw [tokenKeys?, hverdicts.installed]
      exact h.tokenKeys_eq
    -- without keys nothing is remembered, and so nothing of the issuer changes
    issuer_eq := by
      intro hphase
      rw [hkeys (h.installed_eq hphase)]
      exact h.issuer_eq hphase
    issuer_clear := by
      rw [hverdicts.clear_eq, h.issuer_clear, hverdicts.installations] }

end Sound

/-- Every change of a vault keeps it sound. -/
theorem Change.sound (hchange : Change v w) (h : Sound u v) : Sound u w := by
  cases hchange with
  | nothing => exact h
  | start session hphase => exact h.start session hphase
  | keep hphase hindex hbytes => exact h.keep hphase hindex hbytes
  | reconstruct masterKey hphase => exact h.install _ masterKey
  | sealOff => exact h.sealOff
  | serve nonce hphase => exact h.claim nonce hphase
  | request nonce hphase => exact h.setRequestedNonce (some nonce) hphase
  | spend hphase => exact h.setRequestedNonce none hphase
  | takeOver masterKey hphase => exact (h.setRequestedNonce none hphase).install _ masterKey
  | validate issuer hverdicts hkeys => exact h.validate hverdicts hkeys

/-! ### Each phase -/

namespace Sound

variable {settings : Settings} {policy : Policy} {identity : Option Identity}

theorem issuer_eq_of_masterKey_eq_none (h : Sound u v) (hphase : v.phase.masterKey? = none) :
    v.issuer = { u.issuer with installations := v.issuer.installations } :=
  (h.issuer_eq hphase).symm.trans h.issuer_clear

/-- A sealed vault differs from a new one in its journal, and in the number by which its next keys
will be told from those that it had. -/
theorem eq_of_sealed (h : Sound (Vault.fresh settings policy identity) v)
    (hphase : v.phase = .sealed) :
    v = { (Vault.fresh settings policy identity : Vault β) with
      journal := v.journal
      issuer := { Issuer.ofPolicy settings.tokens with
        installations := v.issuer.installations } } := by
  -- every cell but the journal is that of the new vault
  have hissuer := h.issuer_eq_of_masterKey_eq_none (by rw [hphase]; rfl)
  have hshares := h.shares_eq (by rw [hphase]; nofun)
  have hserved := h.servedNonce_eq (by rw [hphase]; rfl)
  have hrequested := h.requestedNonce_eq hphase
  obtain ⟨settings', policy', identity', phase, shares, served, requested, issuer, journal⟩ := v
  obtain rfl : settings' = settings := h.settings_eq
  obtain rfl : policy' = policy := h.policy_eq
  obtain rfl : identity' = identity := h.identity_eq
  obtain rfl : phase = .sealed := hphase
  obtain rfl : shares = .empty := hshares
  obtain rfl : served = none := hserved
  obtain rfl : requested = none := hrequested
  exact congrArg (Vault.mk settings' policy' identity' .sealed .empty none none · journal) hissuer

end Sound

theorem issueToken_of_installed_eq_none (h : v.issuer.installed = none) (payload : Bytes)
    (now : Timestamp) (rng : Entropy) : v.issueToken payload now rng = (.ok none, rng) := by
  rw [issueToken, Issuer.issue, h]
  rfl

theorem acceptsToken_of_installed_eq_none (h : v.issuer.installed = none) (now : Clock)
    (t : TokenHandle) : v.acceptsToken now t = (false, v) := by
  rw [acceptsToken, Issuer.valid_of_installed_eq_none h]

/-- **Lifecycle**: after every run, a sealed vault is a new one but for its journal; in a session
there are no keys and no verdicts, no request has been answered, and the pending shares may have
been dealt; and an unsealed vault has no shares left and makes its tokens under the keys of its
master key.  Tokens are neither made nor accepted by a vault that has no master key. -/
theorem lifecycle [DecidableEq ι] {settings : Settings} {policy : Policy}
    {identity : Option Identity} {v : Vault β} (hv : ofSettings? settings policy identity = .ok v)
    {clock : Clock} {rng : Entropy} {w : World β} (h : World.Reaches ⟨v, clock, rng⟩ w) :
    w.vault.settings = settings ∧ w.vault.policy = policy ∧ w.vault.identity = identity ∧
    (w.vault.phase = .sealed →
      w.vault = { v with
        journal := w.vault.journal
        issuer := { v.issuer with installations := w.vault.issuer.installations } }) ∧
    (∀ session, w.vault.phase = .unsealing session →
      w.vault.issuer = { v.issuer with installations := w.vault.issuer.installations } ∧
      w.vault.tokenKeys? = none ∧ w.vault.servedNonce = none ∧
      (∀ share ∈ w.vault.shares.shares,
        share.index ≠ 0 ∧ share.index ≤ settings.shareCount ∧ share.bytes ≠ []) ∧
      w.vault.pending ≤ settings.shareCount.toNat) ∧
    (∀ session masterKey, w.vault.phase = .unsealed session masterKey →
      w.vault.shares = .empty ∧ w.vault.tokenKeys? = some (TokenKeys.derive masterKey)) ∧
    (w.vault.phase.masterKey? = none →
      (∀ payload now rng, w.vault.issueToken payload now rng = (.ok none, rng)) ∧
      (∀ now t, w.vault.acceptsToken now t = (false, w.vault)) ∧
      ∀ t i transform, Issuer.validateIn World.home t i transform w = (none, w)) := by
  obtain ⟨-, rfl⟩ := ofSettings?_eq_ok_iff.mp hv
  have hw : Sound (Vault.fresh settings policy identity) w.vault :=
    h.keeps Change.sound Sound.of_sameButJournal (Sound.fresh settings policy identity)
  have hsettings : w.vault.settings = settings := hw.settings_eq
  refine ⟨hsettings, hw.policy_eq, hw.identity_eq, hw.eq_of_sealed, ?_, ?_, ?_⟩
  · intro session hphase
    have hkey : w.vault.phase.masterKey? = none := by rw [hphase]; rfl
    have hindex := fun share hshare => (hw.shares_dealt share hshare).1
    refine ⟨hw.issuer_eq_of_masterKey_eq_none hkey, ?_, hw.servedNonce_eq hkey, ?_, ?_⟩
    · rw [hw.tokenKeys_eq, hkey]
      rfl
    · intro share hshare
      obtain ⟨⟨hzero, hle⟩, hbytes⟩ := hw.shares_dealt share hshare
      exact ⟨hzero, hsettings ▸ hle, hbytes⟩
    · rw [← hsettings]
      exact ShareMap.size_le_of_forall_index hindex
  · intro session masterKey hphase
    refine ⟨hw.shares_eq (by rw [hphase]; nofun), ?_⟩
    rw [hw.tokenKeys_eq, hphase]
    rfl
  · intro hkey
    have hinstalled := hw.installed_eq hkey
    exact ⟨issueToken_of_installed_eq_none hinstalled,
      acceptsToken_of_installed_eq_none hinstalled,
      World.validateIn_of_installed_eq_none hinstalled⟩

/-- A session is started, a peer is asked for the master key, and the vault is sealed off. -/
theorem lifecycle_of_sealed_session :
    let v : Vault fun _ : Unit => Unit := fresh .standard .alwaysAccept none
    let stamp : Stamp := ⟨.zeros 16, .ofSeconds 0⟩
    let started := (Operation.run (.startSession stamp) ⟨v, ⟨.ofSeconds 0, ⟨0⟩⟩, .generated [] 0⟩).2
    let asking := (Operation.run (.request stamp) started).2
    let sealedOff := (Operation.run (.sealOff stamp) asking).2
    asking.vault.servedNonce = none ∧ sealedOff.vault = { v with
      journal := sealedOff.vault.journal
      issuer := { v.issuer with installations := sealedOff.vault.issuer.installations } } := by
  intro v stamp started asking sealedOff
  have hv : ofSettings? .standard .alwaysAccept none = .ok v :=
    ofSettings?_eq_ok_iff.mpr ⟨rfl, rfl⟩
  have hasking := ((World.Reaches.refl ⟨v, ⟨.ofSeconds 0, ⟨0⟩⟩, .generated [] 0⟩).operation
    (.startSession stamp)).operation (.request stamp)
  have hsession : asking.vault.phase = .unsealing _ := rfl
  obtain ⟨-, -, -, -, hunsealing, -⟩ := lifecycle hv hasking
  obtain ⟨-, -, hserved, -⟩ := hunsealing _ hsession
  obtain ⟨-, -, -, hsealed, -⟩ := lifecycle hv (hasking.operation (.sealOff stamp))
  exact ⟨hserved, hsealed rfl⟩

end QuorumVault.Vault
