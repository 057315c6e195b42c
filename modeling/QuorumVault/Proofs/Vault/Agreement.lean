import Mathlib.Tactic
import QuorumVault.Proofs.Vault.Network

/-!
# Agreement of vaults that hand their master key over

An answer that arrives while its request is outstanding is taken over, with the master key that its
provider had; so all vaults of a chain of hand-overs hold the master key with which the chain began,
and decode each other's tokens (`Network.agreement`).
-/

namespace QuorumVault

namespace Vault

variable {ι : Type} {β : ι → Type} {v : Vault β}

/-- A token of a vault is written under its token keys. -/
theorem writes_of_issueToken {payload : Bytes} {stamp : Timestamp} {rng rng' : Entropy}
    {text : String} (h : v.issueToken payload stamp rng = (.ok (some text), rng')) :
    ∃ keys iv, v.tokenKeys? = some keys ∧ Token.Writes keys payload stamp iv text := by
  unfold issueToken Issuer.issue at h
  cases hinstalled : v.issuer.installed with
  | none =>
    rw [hinstalled] at h
    cases h
  | some installation =>
    rw [hinstalled] at h
    obtain ⟨written, rng₁, hencode, hpure⟩ := Drawing.bind_eq_ok_iff.mp h
    obtain ⟨htext, rfl⟩ := Drawing.pure_eq_ok_iff.mp hpure
    cases htext
    obtain ⟨iv, hdraw, -⟩ := Token.encode_eq_ok_iff.mp hencode
    exact ⟨installation.keys, iv, by rw [tokenKeys?, hinstalled]; rfl, rng, _, hdraw, hencode⟩

end Vault

namespace Peer

variable {ν ι : Type} {β : ι → Type} {p q : Peer ν β}

theorem Good.tokenKeys?_eq (hp : p.Good) :
    p.world.vault.tokenKeys? = p.world.vault.phase.masterKey?.map TokenKeys.derive := by
  obtain ⟨u, hu⟩ := hp.sound
  exact hu.tokenKeys_eq

theorem Good.origin_iff (hp : p.Good) {masterKey : SecretKey} :
    (∃ first, p.origin = some ⟨first, masterKey⟩) ↔
      p.world.vault.phase.masterKey? = some masterKey := by
  rw [← hp.origin]
  constructor
  · rintro ⟨first, h⟩
    rw [h]
    rfl
  · intro h
    obtain ⟨⟨first, key⟩, horigin, rfl⟩ := Option.map_eq_some_iff.mp h
    exact ⟨first, horigin⟩

/-- An answer to the request that is outstanding is taken over. -/
theorem Good.takeOver (hp : p.Good) {a : Handover ν β} (ha : a.Packed) (stamp : Stamp)
    (hwaiting : p.waiting = some a.request) :
    ∃ own first session masterKey v, a.provider.world.vault.phase = .unsealed own masterKey ∧
      a.provider.origin = some ⟨first, masterKey⟩ ∧
      p.world.vault.phase = .unsealing session ∧
      p.world.vault.takeOver stamp a.bundle = (.ok (), v) ∧
      v.phase = .unsealed session masterKey ∧ v.pending = 0 ∧
      v.tokenKeys? = a.provider.world.vault.tokenKeys? ∧ v.servedNonce = none := by
  obtain ⟨own, masterKey, suite, rng, rng', hprovider, hpack⟩ := ha.packed
  have hasks := hp.waiting _ hwaiting
  obtain ⟨session, hphase, htake⟩ := Vault.takeOver_of_pack stamp hasks hpack
  obtain ⟨first, horigin⟩ := ha.good.origin_iff.mpr (by rw [hprovider]; rfl)
  obtain ⟨u, hu⟩ := hp.sound
  refine ⟨own, first, session, masterKey, _, hprovider, horigin, hphase, htake, rfl, rfl, ?_,
    hu.servedNonce_eq hasks.masterKey?_eq⟩
  rw [ha.good.tokenKeys?_eq, hprovider]
  rfl

/-- Vaults with the same origin decode each other's tokens. -/
theorem Good.decode_of_issueToken (hp : p.Good) (hq : q.Good) {o : Origin ν}
    (hpo : p.origin = some o) (hqo : q.origin = some o) {payload : Bytes} {stamp : Timestamp}
    {rng rng' : Entropy} {text : String}
    (h : p.world.vault.issueToken payload stamp rng = (.ok (some text), rng'))
    (hcal : (Timestamp.ofSeconds stamp.seconds).IsCalendarSecond) :
    ∃ keys, q.world.vault.tokenKeys? = some keys ∧ ∀ now maxAge,
      Token.checkAge stamp now maxAge = .ok () →
        Token.decode keys text now maxAge = .ok ⟨.ofSeconds stamp.seconds, payload⟩ := by
  obtain ⟨keys, iv, hkeys, hwrites⟩ := Vault.writes_of_issueToken h
  refine ⟨keys, ?_, fun now maxAge hage => Token.decode_of_writes hwrites hcal hage⟩
  rw [hq.tokenKeys?_eq, ← hq.origin, hqo]
  rw [hp.tokenKeys?_eq, ← hp.origin, hpo] at hkeys
  exact hkeys

end Peer

namespace Network

variable {ν ι : Type} {β : ι → Type} [DecidableEq ν] [DecidableEq ι] {start n : Network ν β}

/-- **Agreement.**  Let any number of vaults run from their making on, while requests and answers
are delayed, repeated, lost, or presented where they do not belong.  An answer that arrives while
its request is outstanding is taken over: the vault is unsealed with the very master key that the
provider had when it answered, which is the one with which its own chain of hand-overs began; it has
no pending shares, the token keys that the provider had, and has answered no request itself.  A
vault is unsealed exactly if a chain has come to it, with the master key with which the chain began.
A token that one vault of a chain issues, at whatever time, any other one decodes to its payload
while its age is allowed. -/
theorem agreement (hstart : start.IsFresh) (h : Reaches start n) :
    (∀ a ∈ n.handovers, ∀ e stamp, (n.peer e).waiting = some a.request →
      ∃ own first session masterKey v,
        a.provider.world.vault.phase = .unsealed own masterKey ∧
        a.provider.origin = some ⟨first, masterKey⟩ ∧
        (n.peer e).world.vault.phase = .unsealing session ∧
        (n.peer e).world.vault.takeOver stamp a.bundle = (.ok (), v) ∧
        v.phase = .unsealed session masterKey ∧ v.pending = 0 ∧
        v.tokenKeys? = a.provider.world.vault.tokenKeys? ∧ v.servedNonce = none) ∧
    (∀ e masterKey, (∃ first, (n.peer e).origin = some ⟨first, masterKey⟩) ↔
      (n.peer e).world.vault.phase.masterKey? = some masterKey) ∧
    ∀ m, Reaches start m → ∀ d e o, (m.peer d).origin = some o → (n.peer e).origin = some o →
      ∀ payload stamp rng text rng',
        (m.peer d).world.vault.issueToken payload stamp rng = (.ok (some text), rng') →
        (Timestamp.ofSeconds stamp.seconds).IsCalendarSecond →
          ∃ keys, (n.peer e).world.vault.tokenKeys? = some keys ∧ ∀ now maxAge,
            Token.checkAge stamp now maxAge = .ok () →
              Token.decode keys text now maxAge = .ok ⟨.ofSeconds stamp.seconds, payload⟩ := by
  have hgood := h.good hstart.good
  refine ⟨fun a ha e stamp => ?_, fun e masterKey => ?_,
    fun m hm d e o hd he payload stamp rng text rng' => ?_⟩
  · exact (hgood.peer e).takeOver (hgood.handovers a ha) stamp
  · exact (hgood.peer e).origin_iff
  · exact ((hm.good hstart.good).peer d).decode_of_issueToken (hgood.peer e) hd he

/-- A vault takes the master key over from a peer that had it from elsewhere. -/
theorem agreement_of_two :
    ∃ (n : Network Bool fun _ : Unit => Unit) (a : Handover Bool fun _ : Unit => Unit)
      (stamp : Stamp) (session : KeyPair) (v : Vault fun _ : Unit => Unit),
      a ∈ n.handovers ∧ (n.peer true).waiting = some a.request ∧
        a.provider.world.vault.phase.masterKey? = some ⟨.zeros 32⟩ ∧
        (n.peer true).world.vault.takeOver stamp a.bundle = (.ok (), v) ∧
        v.phase = .unsealed session ⟨.zeros 32⟩ ∧ v.pending = 0 := by
  let stamp : Stamp := ⟨.zeros 16, .ofSeconds 0⟩
  let clock : Clock := ⟨.ofSeconds 0, ⟨0⟩⟩
  let vault : Vault fun _ : Unit => Unit := .fresh .standard .alwaysAccept none
  -- all random bytes are zero, and so both vaults make the same request
  let r : KeyRequest := .unsigned (KeyPair.mk (.zeros 32)).publicKey ⟨.zeros 32⟩
  let start : Network Bool fun _ : Unit => Unit :=
    ⟨fun _ => ⟨⟨vault, clock, ⟨fun _ => 0, none, 0⟩⟩, none, none⟩, []⟩
  have hfresh : start.IsFresh :=
    ⟨fun e => ⟨⟨.standard, .alwaysAccept, none, rfl⟩, rfl, rfl⟩, rfl⟩
  let masterKey : SecretKey := ⟨.zeros 32⟩
  obtain ⟨bundle, hpackWith⟩ : ∃ bundle, Envelope.packWith .aes256Gcm (.zeros 32) (.zeros 16)
      r.sessionKey r.nonce.toBytes masterKey.toBytes = .ok bundle :=
    Envelope.exists_packWith .aes256Gcm (.zeros 16) (by decide +kernel) (by decide) (by decide)
  obtain ⟨rng, rng', hpack⟩ := Envelope.exists_pack_of_packWith hpackWith
  let asking := (start.operate false (.startSession stamp)).operate false (.request stamp)
  have hasking : Reaches start asking := (Reaches.refl.operate _ _).operate _ _
  have hwaiting : (asking.peer false).waiting = some r := rfl
  obtain ⟨session, hphase, htake⟩ := Vault.takeOver_of_pack stamp
    (((hasking.good hfresh.good).peer false).waiting r hwaiting) hpack
  -- the first vault takes over an answer that comes from elsewhere, and then the other one asks
  let taken := asking.operate false (.takeOver stamp bundle)
  let both := (taken.operate true (.startSession stamp)).operate true (.request stamp)
  let drawn := both.set false { both.peer false with
    world := { (both.peer false).world with clock := clock, rng := rng } }
  have hprovider : (drawn.peer false).world.vault =
      ({ (asking.peer false).world.vault with requestedNonce := none }.install session
        masterKey).log (Entry.ofStamp stamp .provisioned) := congrArg Prod.snd htake
  have hmaster : (drawn.peer false).world.vault.phase = .unsealed session masterKey := by
    rw [hprovider]
    rfl
  have hserve : ((drawn.peer false).world.vault.serve stamp r rng).1 = .ok bundle := by
    have hsuite : (drawn.peer false).world.vault.settings.suite = .aes256Gcm := rfl
    rw [Vault.serve_of_unsealed stamp rng hmaster (by rw [hprovider]; rfl)
      (by rw [hprovider]; rfl), hsuite, hpack]
  let answered := drawn.operate false (.serve stamp r)
  have hanswered : Reaches start answered :=
    ((((hasking.operate _ _).operate _ _).operate _ _).elsewhere _ _ _).operate _ _
  let a : Handover Bool fun _ : Unit => Unit := ⟨drawn.peer false, r, bundle⟩
  have ha : a ∈ answered.handovers := by
    have hgiven : (drawn.peer false).handover? (.serve stamp r)
        ((drawn.peer false).run false (.serve stamp r)).1 = some a := by
      change (drawn.peer false).handover? (.serve stamp r)
        (.served ((drawn.peer false).world.vault.serve stamp r rng).1) = some a
      rw [hserve, Peer.handover?, Envelope.isEmpty_of_pack hpack]
      rfl
    exact List.mem_append_left _ (Option.mem_toList.mpr hgiven)
  obtain ⟨hagree, -, -⟩ := agreement hfresh hanswered
  obtain ⟨own, first, session', key, v, hown, -, -, htaken, hv, hpending, -⟩ :=
    hagree a ha true stamp rfl
  cases hown.symm.trans hmaster
  exact ⟨answered, a, stamp, session', v, ha, rfl, by rw [hown]; rfl, htaken, hv, hpending⟩

end Network

end QuorumVault
