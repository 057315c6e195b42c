import Mathlib.Tactic
import QuorumVault.Proofs.Envelope
import QuorumVault.Proofs.Sharing.Interpolation
import QuorumVault.Proofs.Token.Issuer
import QuorumVault.Proofs.Vault.Session

/-!
# Unsealing with dealt shares

A session gathers dealt shares (`Gathers`) if every share that is kept was packed by a shareholder
for the session's public key; shares may come in any order and again, shares that are rejected may
come between them, and so may attempts to reconstruct the master key that come too early. The
pending shares are then exactly those dealt ones whose indices have been kept (`Gathered`).

Once these are as many as the threshold, the master key is reconstructed from the secret
(`reconstruct_of_gathers`), so that it does not depend on which shares were dealt and which of them
came.
-/

namespace QuorumVault.Vault

variable {ι : Type} {β : ι → Type} {v w : Vault β} {dealt : List Share} {accepted : List UInt8}

/-! ### Gathering -/

/-- An envelope that a shareholder makes of a share, with any random bytes. -/
def IsPacked (suite : CipherSuite) (key : PublicKey) (share : Share) (envelope : Envelope) : Prop :=
  ∃ rng rng', Envelope.packShare suite key share rng = (.ok envelope, rng')

/-- A share that is not too long is packed if some ephemeral secret contributes to the exchange. -/
theorem exists_isPacked (suite : CipherSuite) {key : PublicKey} {share : Share}
    (ephemeral : Octets 32)
    (hshared : X25519.isContributory (X25519.exchange ephemeral key.octets) = true)
    (hlength : share.toBytes.length ≤ Gcm.maxLength) :
    ∃ envelope, IsPacked suite key share envelope := by
  have hlabel : Envelope.shareLabel.length ≤ Gcm.maxLength := by decide
  obtain ⟨envelope, h⟩ := Envelope.exists_packWith suite (.zeros 16) hshared hlength hlabel
  exact ⟨envelope, Envelope.exists_pack_of_packWith h⟩

/-- What may happen to a vault while dealt shares are gathered, with the indices of those that have
been accepted. -/
inductive Gathers (dealt : List Share) (v : Vault β) : List UInt8 → Vault β → Prop where
  /-- Nothing has happened. -/
  | start : Gathers dealt v [] v
  /-- A dealt share arrives that was packed for the public key of the session. -/
  | packed {accepted : List UInt8} {w : Vault β} {share : Share} {key : PublicKey}
      {envelope : Envelope} (stamp : Stamp) (h : Gathers dealt v accepted w)
      (hshare : share ∈ dealt) (hkey : w.sessionKey = .ok key)
      (henvelope : IsPacked w.settings.suite key share envelope) :
      Gathers dealt v (share.index :: accepted) (w.submit stamp envelope).2
  /-- An envelope arrives that is rejected. -/
  | rejected {accepted : List UInt8} {w : Vault β} {envelope : Envelope} (stamp : Stamp)
      (h : Gathers dealt v accepted w)
      (hanswer : ∀ status, (w.submit stamp envelope).1 = .ok status → status.success = false) :
      Gathers dealt v accepted (w.submit stamp envelope).2
  /-- The master key is asked for too early. -/
  | early {accepted : List UInt8} {w : Vault β} (stamp : Stamp) (h : Gathers dealt v accepted w)
      (hpending : w.pending < w.settings.threshold.toNat) :
      Gathers dealt v accepted (w.reconstruct stamp).2

/-- The pending shares are the dealt ones whose indices have been accepted. -/
structure Gathered (dealt : List Share) (v : Vault β) (accepted : List UInt8) (w : Vault β) :
    Prop where
  settings_eq : w.settings = v.settings
  identity_eq : w.identity = v.identity
  phase_eq : w.phase = v.phase
  mem_dealt : ∀ share ∈ w.shares.shares, share ∈ dealt
  contains_iff : ∀ index, w.shares.contains index = true ↔ index ∈ accepted

theorem Gathered.of_sameButJournal {u : Vault β} (h : Gathered dealt v accepted w)
    (hw : SameButJournal w u) : Gathered dealt v accepted u where
  settings_eq := hw.settings_eq.trans h.settings_eq
  identity_eq := hw.identity_eq.trans h.identity_eq
  phase_eq := hw.phase_eq.trans h.phase_eq
  mem_dealt := by rw [hw.shares_eq]; exact h.mem_dealt
  contains_iff := by rw [hw.shares_eq]; exact h.contains_iff

theorem Gathered.keepShare (h : Gathered dealt v accepted w) {share : Share}
    (hshare : share ∈ dealt) (stamp : Stamp) :
    Gathered dealt v (share.index :: accepted) (w.keepShare stamp share).2 where
  settings_eq := h.settings_eq
  identity_eq := h.identity_eq
  phase_eq := h.phase_eq
  mem_dealt := by
    intro s hs
    rcases ShareMap.mem_shares_insert.mp hs with rfl | ⟨-, hs⟩
    · exact hshare
    · exact h.mem_dealt s hs
  contains_iff := by
    intro index
    rw [List.mem_cons, ← h.contains_iff]
    exact ShareMap.contains_insert w.shares share index

section Dealt

variable {secret : Bytes} {coefficients : Sharing.Coefficients} {session : KeyPair}
  (hdealt : Sharing.split secret v.settings.shareCount v.settings.threshold coefficients =
    .ok dealt)
  (hphase : v.phase = .unsealing session)

include hdealt hphase

theorem Gathered.submit_eq_keepShare (h : Gathered dealt v accepted w) {share : Share}
    {key : PublicKey} {envelope : Envelope} (hshare : share ∈ dealt) (hkey : w.sessionKey = .ok key)
    (hpacked : IsPacked w.settings.suite key share envelope) (stamp : Stamp) :
    w.submit stamp envelope = w.keepShare stamp share := by
  obtain ⟨hzero, hcount, -⟩ := (Sharing.mem_dealt_iff hdealt).mp hshare
  obtain ⟨hsecret, -, -, -⟩ := Sharing.split_eq_ok_iff.mp hdealt
  -- a dealt share is as long as the secret
  have hbytes : share.bytes ≠ [] := by
    intro hnil
    have hlength := Sharing.length_of_mem_dealt hdealt hshare
    rw [hnil, List.length_nil] at hlength
    exact hsecret (List.eq_nil_of_length_eq_zero hlength.symm)
  have hw : w.phase = .unsealing session := h.phase_eq.trans hphase
  obtain rfl : session.publicKey = key := by
    rw [sessionKey, hw] at hkey
    exact Except.ok.inj hkey
  obtain ⟨rng, rng', hpacked⟩ := hpacked
  have hopen := Envelope.unpackShare_of_packShare hzero hbytes hpacked
  rw [← h.settings_eq] at hcount
  rcases submit_of_unsealing stamp envelope hw with
    ⟨fault, hfault, -⟩ | ⟨share', hshare', hlt, -⟩ | ⟨share', hshare', -, hkeep⟩
  · rw [hopen] at hfault
    cases hfault
  · rw [hopen] at hshare'
    obtain rfl := Except.ok.inj hshare'
    exact absurd hcount (UInt8.not_le.mpr hlt)
  · rw [hopen] at hshare'
    obtain rfl := Except.ok.inj hshare'
    exact hkeep

/-- Gathering keeps the dealt shares pending. -/
theorem Gathers.gathered (h : Gathers dealt v accepted w) (hempty : v.shares = .empty) :
    Gathered dealt v accepted w := by
  -- the induction follows the history; only a packed share changes what is pending
  induction h with
  | start =>
    refine ⟨rfl, rfl, rfl, ?_, ?_⟩
    · rw [hempty, ShareMap.shares_eq_nil_iff.mpr rfl]
      simp
    · rw [hempty]
      simp [ShareMap.contains]
  | packed stamp h hshare hkey henvelope ih =>
    rw [ih.submit_eq_keepShare hdealt hphase hshare hkey henvelope stamp]
    exact ih.keepShare hshare stamp
  | @rejected accepted w envelope stamp h hanswer ih =>
    rcases submit_cases stamp envelope w with ⟨session, share, -, -, -, hkeep⟩ | ⟨-, hsame⟩
    · rw [hkeep] at hanswer
      cases hanswer _ rfl
    · exact ih.of_sameButJournal hsame
  | @early accepted w stamp h hpending ih =>
    rcases reconstruct_of_unsealing stamp (ih.phase_eq.trans hphase) with
      ⟨-, h⟩ | ⟨fault, hle, -, -⟩ | ⟨secret, hle, -, -⟩
    · rw [h]
      exact ih
    · exact absurd hpending (Nat.not_lt.mpr hle)
    · exact absurd hpending (Nat.not_lt.mpr hle)

/-- Enough gathered shares make the master key of the secret. -/
theorem Gathered.reconstruct_eq (h : Gathered dealt v accepted w)
    (henough : v.settings.threshold.toNat ≤ accepted.toFinset.card) (stamp : Stamp) :
    w.reconstruct stamp =
      (.ok ⟨true, accepted.toFinset.card, v.identity.map (·.digest), ""⟩,
        (w.takeShares.install session (v.settings.derivation.derive secret)).log
          ((Entry.ofStamp stamp .unsealed).withShareCount accepted.toFinset.card)) := by
  have hsize : w.pending = accepted.toFinset.card :=
    ShareMap.size_eq_card fun index => by rw [h.contains_iff, List.mem_toFinset]
  have hcombine : Sharing.combine w.settings.threshold w.shares = .ok secret := by
    rw [h.settings_eq]
    exact Sharing.combine_of_dealt hdealt h.mem_dealt (henough.trans_eq hsize.symm)
      (henough.trans_eq hsize.symm)
  rcases reconstruct_of_unsealing stamp (h.phase_eq.trans hphase) with
    ⟨hlt, -⟩ | ⟨fault, -, hfault, -⟩ | ⟨secret', -, hsecret', hreconstruct⟩
  · rw [h.settings_eq, hsize] at hlt
    exact absurd hlt (Nat.not_lt.mpr henough)
  · rw [hcombine] at hfault
    cases hfault
  · rw [hcombine] at hsecret'
    obtain rfl := Except.ok.inj hsecret'
    rw [hreconstruct, hsize, h.settings_eq, h.identity_eq]

end Dealt

/-! ### Unsealing -/

/-- A vault that was unsealed with shares of a secret, in a session that gathered enough of them. -/
inductive UnsealedWith (secret : Bytes) : Vault β → Prop where
  /-- The secret was split, a session was started, and it has gathered shares. -/
  | intro {v u w : Vault β} {coefficients : Sharing.Coefficients} {dealt : List Share}
      {accepted : List UInt8} {stamp stamp' : Stamp} {status : Status} {rng rng' : Entropy}
      (hdealt : Sharing.split secret v.settings.shareCount v.settings.threshold coefficients =
        .ok dealt)
      (hstart : v.startSession stamp rng = (.ok status, u, rng'))
      (hgathers : Gathers dealt u accepted w)
      (henough : v.settings.threshold.toNat ≤ accepted.toFinset.card) :
      UnsealedWith secret (w.reconstruct stamp').2

/-- What a session with enough gathered shares comes to. -/
theorem reconstruct_eq_of_start {secret : Bytes} {coefficients : Sharing.Coefficients}
    {v u w : Vault β} {stamp : Stamp} {status : Status} {rng rng' : Entropy}
    (hdealt : Sharing.split secret v.settings.shareCount v.settings.threshold coefficients =
      .ok dealt)
    (hstart : v.startSession stamp rng = (.ok status, u, rng'))
    (hgathers : Gathers dealt u accepted w)
    (henough : v.settings.threshold.toNat ≤ accepted.toFinset.card) (stamp' : Stamp) :
    ∃ session, u.phase = .unsealing session ∧ w.settings = v.settings ∧ w.reconstruct stamp' =
      (.ok ⟨true, accepted.toFinset.card, v.identity.map (·.digest), ""⟩,
        (w.takeShares.install session (v.settings.derivation.derive secret)).log
          ((Entry.ofStamp stamp' .unsealed).withShareCount accepted.toFinset.card)) := by
  rcases startSession_cases stamp v rng with ⟨session, rng'', -, -, h⟩ | ⟨setback, rng'', h⟩
  · -- the session starts without shares, whatever was pending before
    rw [hstart] at h
    obtain ⟨-, rfl, -⟩ := Prod.mk.inj h |>.imp_right Prod.mk.inj
    have hgathered := hgathers.gathered (v := v.started stamp session) hdealt rfl rfl
    exact ⟨session, rfl, hgathered.settings_eq,
      hgathered.reconstruct_eq (v := v.started stamp session) hdealt rfl henough stamp'⟩
  · rw [hstart] at h
    cases h

theorem UnsealedWith.keys_eq {secret : Bytes} {v : Vault β} (h : UnsealedWith secret v) :
    v.phase.masterKey? = some (v.settings.derivation.derive secret) ∧
      v.tokenKeys? = some (TokenKeys.derive (v.settings.derivation.derive secret)) := by
  obtain @⟨v, u, w, _, _, _, stamp, stamp', _, rng, _, hdealt, hstart, hgathers, henough⟩ := h
  obtain ⟨session, -, hsettings, h⟩ :=
    reconstruct_eq_of_start hdealt hstart hgathers henough stamp'
  rw [h, ← hsettings]
  exact ⟨rfl, rfl⟩

/-- A token that one vault issues is accepted by another that has just got the same keys. -/
theorem acceptsToken_of_issueToken {ι' : Type} {β' : ι' → Type} {y : Vault β'} {x : Vault β}
    {issuer : Issuer β} {masterKey : SecretKey} {payload : Bytes} {issued : Timestamp}
    {text : String} {rng rng' : Entropy} {now : Clock}
    (hissuer : x.issuer = issuer.install masterKey)
    (hkeys : y.tokenKeys? = some (TokenKeys.derive masterKey))
    (hissue : y.issueToken payload issued rng = (.ok (some text), rng'))
    (hcal : (Timestamp.ofSeconds issued.seconds).IsCalendarSecond)
    (hage : Token.checkAge issued now.wall x.issuer.maxAge = .ok ()) :
    (x.acceptsToken now (.ofText text)).1 = true := by
  obtain ⟨installation, hinstalled, hkeys⟩ := Option.map_eq_some_iff.mp hkeys
  rw [issueToken, Issuer.issue, hinstalled] at hissue
  obtain ⟨text', rng₁, hencode, htext⟩ := Drawing.bind_eq_ok_iff.mp hissue
  obtain ⟨htext, -⟩ := Drawing.pure_eq_ok_iff.mp htext
  obtain rfl := Option.some.inj htext
  rw [hkeys] at hencode
  obtain ⟨iv, hdraw, -⟩ := Token.encode_eq_ok_iff.mp hencode
  have hwrites : Token.Writes (TokenKeys.derive masterKey) payload issued iv text' :=
    ⟨rng, rng₁, hdraw, hencode⟩
  rw [acceptsToken, hissuer]
  rw [hissuer] at hage
  exact Issuer.valid_install_of_writes (h := .ofText text') hwrites hcal hage

/-- **Unsealing**: a session in which as many dealt shares have been gathered as the threshold asks
for makes the master key of the secret, however the secret was split and whatever else arrived.  Any
other vault that was unsealed with the same secret has the same keys, and its tokens are accepted.
-/
theorem reconstruct_of_gathers {secret : Bytes} (hsecret : secret ≠ []) (v : Vault β)
    (hlow : 2 ≤ v.settings.threshold) (hhigh : v.settings.threshold ≤ v.settings.shareCount)
    (coefficients : Sharing.Coefficients) :
    ∃ dealt, Sharing.split secret v.settings.shareCount v.settings.threshold coefficients =
        .ok dealt ∧
      ∀ {stamp : Stamp} {rng : Entropy} {status : Status} {u : Vault β} {rng' : Entropy},
        v.startSession stamp rng = (.ok status, u, rng') →
      ∀ {accepted : List UInt8} {w : Vault β}, Gathers dealt u accepted w →
        v.settings.threshold.toNat ≤ accepted.toFinset.card →
      ∀ {stamp' : Stamp} {answer : Except Refusal UnwrapStatus} {x : Vault β},
        w.reconstruct stamp' = (answer, x) →
      answer = .ok ⟨true, accepted.toFinset.card, v.identity.map (·.digest), ""⟩ ∧
      (∃ session, u.phase = .unsealing session ∧
        x.phase = .unsealed session (v.settings.derivation.derive secret)) ∧
      x.pending = 0 ∧
      x.tokenKeys? = some (TokenKeys.derive (v.settings.derivation.derive secret)) ∧
      ∀ {ι' : Type} {β' : ι' → Type} {y : Vault β'}, UnsealedWith secret y →
        y.settings.derivation = v.settings.derivation →
        y.phase.masterKey? = x.phase.masterKey? ∧ y.tokenKeys? = x.tokenKeys? ∧
        ∀ {payload : Bytes} {issued : Timestamp} {rng rng' : Entropy} {text : String} {now : Clock},
          y.issueToken payload issued rng = (.ok (some text), rng') →
          (Timestamp.ofSeconds issued.seconds).IsCalendarSecond →
          Token.checkAge issued now.wall x.issuer.maxAge = .ok () →
          (x.acceptsToken now (.ofText text)).1 = true := by
  obtain ⟨dealt, hdealt⟩ : ∃ dealt, Sharing.split secret v.settings.shareCount
      v.settings.threshold coefficients = .ok dealt :=
    ⟨_, Sharing.split_eq_ok_iff.mpr ⟨hsecret, hlow, hhigh, rfl⟩⟩
  refine ⟨dealt, hdealt, ?_⟩
  intro stamp rng status u rng' hstart accepted w hgathers henough stamp' answer x hreconstruct
  obtain ⟨session, hphase, -, h⟩ := reconstruct_eq_of_start hdealt hstart hgathers henough stamp'
  rw [hreconstruct] at h
  obtain ⟨rfl, rfl⟩ := Prod.mk.inj h
  refine ⟨rfl, ⟨session, hphase, rfl⟩, ShareMap.size_empty, rfl, ?_⟩
  intro ι' β' y hy hderivation
  obtain ⟨hmaster, htokens⟩ := hy.keys_eq
  rw [hderivation] at hmaster htokens
  refine ⟨hmaster, htokens, ?_⟩
  intro payload issued rng rng' text now hissue hcal hage
  exact acceptsToken_of_issueToken rfl htokens hissue hcal hage

/-- Two of the three shares of a secret of one byte arrive, the second one first. -/
theorem reconstruct_of_two_gathered :
    ∃ (w x : Vault fun _ : Unit => Unit) (stamp : Stamp),
      w.reconstruct stamp = (.ok ⟨true, 2, none, ""⟩, x) ∧ x.pending = 0 ∧
        x.tokenKeys? = some (TokenKeys.derive (Derivation.sha256.derive [7])) := by
  let v : Vault fun _ : Unit => Unit := fresh .standard .alwaysAccept none
  let stamp : Stamp := ⟨.zeros 16, .ofSeconds 0⟩
  let session : KeyPair := ⟨.zeros 32⟩
  obtain ⟨dealt, hdealt, h⟩ := reconstruct_of_gathers (show [7] ≠ [] by decide) v (by decide)
    (by decide) (fun _ _ => 1)
  obtain ⟨rng', hdraw⟩ := Entropy.exists_draw?_eq (.zeros 32)
  have hstart : v.startSession stamp (.ofBytes (Octets.zeros 32).toList) =
      (.ok (.ok 0), v.started stamp session, rng') := by
    have hgenerate : KeyPair.generate (ε := Refusal) (.ofBytes (Octets.zeros 32).toList) =
        (.ok session, rng') :=
      KeyPair.generate_eq_ok_iff.mpr hdraw
    rw [startSession_of_masterKey_eq_none stamp _ rfl, hgenerate]
  have hpacked (share : Share) (hshare : share ∈ dealt) :
      ∃ envelope, IsPacked v.settings.suite session.publicKey share envelope := by
    refine exists_isPacked _ (.zeros 32) (by decide +kernel) ?_
    rw [Share.toBytes, List.length_cons, Sharing.length_of_mem_dealt hdealt hshare]
    decide
  have hmem (i : UInt8) (hi : i ≠ 0) (hi' : i ≤ 3) : ∃ share ∈ dealt, share.index = i := by
    exact ⟨Sharing.shareAt _ i, (Sharing.mem_dealt_iff hdealt).mpr ⟨hi, hi', rfl⟩, rfl⟩
  obtain ⟨one, hone, hindex⟩ := hmem 1 (by decide) (by decide)
  obtain ⟨two, htwo, hindex'⟩ := hmem 2 (by decide) (by decide)
  obtain ⟨e₁, he₁⟩ := hpacked one hone
  obtain ⟨e₂, he₂⟩ := hpacked two htwo
  have hfirst : Gathers dealt (v.started stamp session) [2] _ :=
    hindex' ▸ (Gathers.start (v := v.started stamp session)).packed stamp htwo rfl he₂
  have hgathered := hfirst.gathered (v := v.started stamp session) hdealt rfl rfl
  have hkey : ((v.started stamp session).submit stamp e₂).2.sessionKey =
      .ok session.publicKey := by
    rw [sessionKey, hgathered.phase_eq]
    rfl
  have hsecond : Gathers dealt (v.started stamp session) [1, 2] _ :=
    hindex ▸ hfirst.packed stamp hone hkey (hgathered.settings_eq ▸ he₁)
  obtain ⟨hanswer, -, hpending, htokens, -⟩ :=
    h hstart hsecond (by decide) (show reconstruct stamp _ = _ from rfl)
  exact ⟨_, _, stamp, Prod.ext hanswer rfl, hpending, htokens⟩

end QuorumVault.Vault
