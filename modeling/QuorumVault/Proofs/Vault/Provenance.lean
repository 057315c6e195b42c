import Mathlib.Tactic
import QuorumVault.Proofs.KeySource
import QuorumVault.Proofs.Token.Verdicts
import QuorumVault.Proofs.Vault.History

/-!
# Where accepted messages come from

Any number of vaults run while shareholders pack shares, and whatever has been sent is delayed,
repeated, taken apart and put together again (`Trace`).  The cipher is ideal: a box is unlocked only
if it was locked before under the same key, and keys of one kind agree only if they are derived from
the same (`Ideal`).  Then what a vault accepts was made for just this purpose (`provenance`): a
share for the session that the vault is in, a master key for this session and the request that it
waits for, and a token under its own master key.

The purposes are told apart by the associated data alone, which have different lengths: the label of
shares has 23 bytes, a nonce 32 and the header of a token 9.
-/

namespace QuorumVault

/-! ### Traces -/

/-- What happens among vaults and shareholders. -/
inductive Event (ν : Type) {ι : Type} (β : ι → Type) where
  /-- A shareholder packs a share for a public key. -/
  | deal (suite : CipherSuite) (recipient : PublicKey) (share : Share) (rng : Entropy)
  /-- Something is done to a vault. -/
  | deed (e : ν) (d : Deed β)

variable {ν ι : Type} {β : ι → Type} [DecidableEq ι]
  {start worlds : ν → World β} {events later earlier : List (Event ν β)} {event origin : Event ν β}
  {source source' : KeySource} {box : SecretBox}

/-- The runs of several vaults, with what happens in them, the last event first.  The messages that
a vault is given are not bound to be among those that were sent. -/
inductive Trace [DecidableEq ν] (start : ν → World β) :
    List (Event ν β) → (ν → World β) → Prop where
  | refl : Trace start [] start
  | deal {events : List (Event ν β)} {worlds : ν → World β} (suite : CipherSuite)
      (recipient : PublicKey) (share : Share) (rng : Entropy) (h : Trace start events worlds) :
      Trace start (.deal suite recipient share rng :: events) worlds
  /-- A vault goes on for a while. -/
  | goOn {events : List (Event ν β)} {worlds : ν → World β} (e : ν) {deeds : List (Deed β)}
      {w : World β} (hdeeds : History (worlds e) deeds w) (h : Trace start events worlds) :
      Trace start (deeds.map (.deed e) ++ events) (Function.update worlds e w)

/-- Vaults that were made from settings stay sound, and so they are whenever something is done. -/
theorem Trace.sound [DecidableEq ν] (hstart : ∀ e, ∃ u, Vault.Sound u (start e).vault)
    (h : Trace start events worlds) :
    (∀ e, ∃ u, Vault.Sound u (worlds e).vault) ∧
      ∀ e d, .deed e d ∈ events → ∃ u, Vault.Sound u d.world.vault := by
  induction h with
  | refl => exact ⟨hstart, fun e d hd => absurd hd List.not_mem_nil⟩
  | deal suite recipient share rng h ih =>
    refine ⟨ih.1, fun e d hd => ih.2 e d ?_⟩
    rcases List.mem_cons.mp hd with hd | hd
    · cases hd
    · exact hd
  | @goOn events worlds e deeds w hdeeds h ih =>
    obtain ⟨hworlds, hevents⟩ := ih
    obtain ⟨u, hu⟩ := hworlds e
    have hkeeps {deeds : List (Deed β)} {w : World β} (hdeeds : History (worlds e) deeds w) :
        Vault.Sound u w.vault :=
      hdeeds.keeps Vault.Change.sound Vault.Sound.of_sameButJournal hu
    constructor
    · intro e'
      by_cases he : e' = e
      · rw [he, Function.update_self]
        exact ⟨u, hkeeps hdeeds⟩
      · rw [Function.update_of_ne he]
        exact hworlds e'
    · intro e' d hd
      rcases List.mem_append.mp hd with hd | hd
      · obtain ⟨d', hd', heq⟩ := List.mem_map.mp hd
        obtain ⟨-, rfl⟩ := Event.deed.inj heq
        obtain ⟨after, before, rfl⟩ := List.append_of_mem hd'
        exact ⟨u, hkeeps hdeeds.of_append⟩
      · exact hevents e' d hd

/-! ### The ideal cipher -/

/-- In an event a message is locked as `box`, under the key from `source`. -/
inductive Event.Locks : Event ν β → KeySource → SecretBox → Prop where
  | deal {suite : CipherSuite} {recipient : PublicKey} {share : Share} {rng : Entropy}
      {envelope : Envelope} {source : KeySource} {box : SecretBox}
      (h : envelope.Locks suite recipient Envelope.shareLabel share.toBytes rng source box) :
      Locks (.deal suite recipient share rng) source box
  | serve {e : ν} {w : World β} {stamp : Stamp} {r : KeyRequest} {session : KeyPair}
      {masterKey : SecretKey} {bundle : Envelope} {source : KeySource} {box : SecretBox}
      (hphase : w.vault.phase = .unsealed session masterKey)
      (hserve : (w.vault.serve stamp r w.rng).1 = .ok bundle)
      (h : bundle.Locks w.vault.settings.suite r.sessionKey r.nonce.toBytes masterKey.toBytes
        w.rng source box) :
      Locks (.deed e (.call w (.serve stamp r))) source box
  | issueToken {e : ν} {w : World β} {payload : Bytes} {masterKey : SecretKey} {text : String}
      {source : KeySource} {box : SecretBox}
      (hmaster : w.vault.phase.masterKey? = some masterKey)
      (hissue : (w.vault.issueToken payload w.clock.wall w.rng).1 = .ok (some text))
      (h : Token.Locks masterKey payload w.clock.wall text source box) :
      Locks (.deed e (.call w (.issueToken payload))) source box

/-- In an event `box` is unlocked with the key from `source`. -/
inductive Event.Unlocks : Event ν β → KeySource → SecretBox → Prop where
  | submit {e : ν} {w : World β} {stamp : Stamp} {envelope : Envelope} {session : KeyPair}
      {message : Bytes} {source : KeySource} {box : SecretBox}
      (hphase : w.vault.phase = .unsealing session)
      (h : envelope.Unlocks w.vault.settings.suite session Envelope.shareLabel message source box) :
      Unlocks (.deed e (.call w (.submit stamp envelope))) source box
  | takeOver {e : ν} {w : World β} {stamp : Stamp} {bundle : Envelope} {session : KeyPair}
      {nonce : Nonce} {message : Bytes} {source : KeySource} {box : SecretBox}
      (hphase : w.vault.phase = .unsealing session) (hnonce : w.vault.requestedNonce = some nonce)
      (h : bundle.Unlocks w.vault.settings.suite session nonce.toBytes message source box) :
      Unlocks (.deed e (.call w (.takeOver stamp bundle))) source box
  | present {e : ν} {w : World β} {t : TokenHandle} {i : ι} {masterKey : SecretKey} {serial : ℕ}
      {token : Token.Decoded} {source : KeySource} {box : SecretBox}
      (hmaster : w.vault.phase.masterKey? = some masterKey)
      (hdecoded : (w.vault.issuer.present w.clock t i).1 = .decoded serial token)
      (h : Token.Unlocks masterKey t.text token source box) :
      Unlocks (.deed e (.present w t i)) source box

/-- A key is derived from `source` to lock or to unlock. -/
def Event.Derives (event : Event ν β) (source : KeySource) : Prop :=
  ∃ box, event.Locks source box ∨ event.Unlocks source box

/-- The cipher is ideal as far as it is used. -/
structure Ideal (events : List (Event ν β)) : Prop where
  /-- What is unlocked was locked before under the same key. -/
  unforged : ∀ later event earlier, events = later ++ event :: earlier → ∀ source box,
    event.Unlocks source box →
      ∃ origin ∈ earlier, ∃ source', origin.Locks source' box ∧ source'.key = source.key
  /-- Two derivations of one kind agree only if they start from the same. -/
  eq_of_key_eq : ∀ a ∈ events, ∀ b ∈ events, ∀ source source', a.Derives source →
    b.Derives source' → source.isExchange = source'.isExchange → source.key = source'.key →
      source = source'

namespace Ideal

theorem length_shareLabel : Envelope.shareLabel.length = 23 := by decide +kernel

theorem length_nonce (nonce : Nonce) : nonce.toBytes.length = 32 := nonce.octets.length_toList

/-- What is locked and unlocked under the same key, of one kind, is so under the same source. -/
theorem source_eq (h : Ideal events) (hevent : event ∈ events) (horigin : origin ∈ events)
    (hunlocks : event.Unlocks source box) (hlocks : origin.Locks source' box)
    (hkind : source'.isExchange = source.isExchange) (hkey : source'.key = source.key) :
    source' = source :=
  h.eq_of_key_eq origin horigin event hevent source' source ⟨box, .inl hlocks⟩
    ⟨box, .inr hunlocks⟩ hkind hkey

theorem exists_origin (h : Ideal events) (hevents : events = later ++ event :: earlier)
    (hunlocks : event.Unlocks source box) :
    event ∈ events ∧ ∃ origin ∈ earlier, origin ∈ events ∧
      ∃ source', origin.Locks source' box ∧ source'.key = source.key := by
  obtain ⟨origin, horigin, hlocks⟩ := h.unforged later event earlier hevents source box hunlocks
  rw [hevents]
  exact ⟨List.mem_append_right _ List.mem_cons_self, origin, horigin,
    List.mem_append_right _ (List.mem_cons_of_mem _ horigin), hlocks⟩

/-- Whatever was locked as the box of a share that a vault opens is this share, packed for the
session of the vault. -/
theorem deal_of_locks {suite : CipherSuite} {pair : KeyPair} {message : Bytes}
    {envelope : Envelope} (h : Ideal events) (hevent : event ∈ events) (horigin : origin ∈ events)
    (hopen : envelope.Unlocks suite pair Envelope.shareLabel message source box)
    (hunlocks : event.Unlocks source box) (hlocks : origin.Locks source' box)
    (hkey : source'.key = source.key) :
    ∃ share rng rng', origin = .deal suite pair.publicKey share rng ∧
      Envelope.packShare suite pair.publicKey share rng = (.ok envelope, rng') ∧
        share.toBytes = message := by
  have hassociated : box.associated = Envelope.shareLabel := by
    obtain ⟨-, -, hassociated, -⟩ := hopen
    exact hassociated
  have hlength : box.associated.length = 23 := by rw [hassociated, length_shareLabel]
  cases hlocks with
  | @deal suite' recipient share rng envelope' _ _ hlock =>
    have hkind := hlock.isExchange_eq.trans hopen.isExchange_eq.symm
    obtain rfl := h.source_eq hevent horigin hunlocks (.deal hlock) hkind hkey
    obtain ⟨rfl, rfl, -, hmessage, rfl⟩ := hopen.eq_of_locks hlock
    obtain ⟨-, -, rng', -, -, -, -, hpack⟩ := hlock
    exact ⟨share, rng, rng', rfl, hpack, hmessage⟩
  | serve hphase hserve hlock =>
    rw [hlock.associated_eq, length_nonce] at hlength
    omega
  | issueToken hmaster hissue hlock =>
    obtain ⟨-, -, hlockWith⟩ := hlock
    have hheader := (SecretBox.lockWith_eq_ok_iff.mp hlockWith).2.1
    rw [hheader, Token.length_header, Token.headerLength] at hlength
    omega

/-- Whatever was locked as the box of an answer that a vault opens is this answer, packed for the
session of the vault and the nonce with which it is opened. -/
theorem serve_of_locks {suite : CipherSuite} {pair : KeyPair} {nonce : Nonce} {message : Bytes}
    {bundle : Envelope} (h : Ideal events) (hevent : event ∈ events) (horigin : origin ∈ events)
    (hopen : bundle.Unlocks suite pair nonce.toBytes message source box)
    (hunlocks : event.Unlocks source box) (hlocks : origin.Locks source' box)
    (hkey : source'.key = source.key) :
    ∃ e x stamp r own masterKey, origin = .deed e (.call x (.serve stamp r)) ∧
      r.sessionKey = pair.publicKey ∧ r.nonce = nonce ∧
        x.vault.phase = .unsealed own masterKey ∧
          (x.vault.serve stamp r x.rng).1 = .ok bundle ∧ masterKey.toBytes = message := by
  have hassociated : box.associated = nonce.toBytes := by
    obtain ⟨-, -, hassociated, -⟩ := hopen
    exact hassociated
  have hlength : box.associated.length = 32 := by rw [hassociated, length_nonce]
  cases hlocks with
  | deal hlock =>
    rw [hlock.associated_eq, length_shareLabel] at hlength
    omega
  | @serve e x stamp r own masterKey bundle' _ _ hphase hserve hlock =>
    have hkind := hlock.isExchange_eq.trans hopen.isExchange_eq.symm
    obtain rfl := h.source_eq hevent horigin hunlocks (.serve hphase hserve hlock) hkind hkey
    obtain ⟨-, hrecipient, hnonce, hmessage, rfl⟩ := hopen.eq_of_locks hlock
    have hnonce : r.nonce = nonce := congrArg Nonce.mk (Octets.ext hnonce)
    exact ⟨e, x, stamp, r, own, masterKey, rfl, hrecipient, hnonce, hphase, hserve, hmessage⟩
  | issueToken hmaster hissue hlock =>
    obtain ⟨-, -, hlockWith⟩ := hlock
    have hheader := (SecretBox.lockWith_eq_ok_iff.mp hlockWith).2.1
    rw [hheader, Token.length_header, Token.headerLength] at hlength
    omega

/-- Whatever was locked as the box of a token that a vault decodes is this token, made under the
master key of the vault. -/
theorem issueToken_of_locks {masterKey : SecretKey} {text : String} {token : Token.Decoded}
    (h : Ideal events) (hevent : event ∈ events) (horigin : origin ∈ events)
    (hopen : Token.Unlocks masterKey text token source box)
    (hunlocks : event.Unlocks source box) (hlocks : origin.Locks source' box)
    (hkey : source'.key = source.key) :
    ∃ e x payload, origin = .deed e (.call x (.issueToken payload)) ∧
      x.vault.phase.masterKey? = some masterKey ∧
        (x.vault.issueToken payload x.clock.wall x.rng).1 = .ok (some text) ∧
          Token.header x.clock.wall.seconds = Token.header token.issuedAt.seconds ∧
            payload = token.payload := by
  have hlength : box.associated.length = 9 := by
    obtain ⟨-, -, hassociated, -⟩ := hopen
    rw [hassociated, Token.length_header, Token.headerLength]
  cases hlocks with
  | deal hlock =>
    rw [hlock.associated_eq, length_shareLabel] at hlength
    omega
  | serve hphase hserve hlock =>
    rw [hlock.associated_eq, length_nonce] at hlength
    omega
  | @issueToken e x payload masterKey' text' _ _ hmaster hissue hlock =>
    have hkind : source'.isExchange = source.isExchange := by
      obtain ⟨rfl, -⟩ := hlock
      obtain ⟨rfl, -⟩ := hopen
      rfl
    obtain rfl := h.source_eq hevent horigin hunlocks (.issueToken hmaster hissue hlock) hkind hkey
    obtain ⟨rfl, rfl, hheader, hpayload⟩ := hopen.eq_of_locks hlock
    exact ⟨e, x, payload, rfl, hmaster, hissue, hheader, hpayload⟩

end Ideal

/-! ### What is accepted -/

/-- Whatever was locked as the box that is unlocked in an event, under its key, was so in an event
with `p`. -/
def Event.UnlocksOnly (events : List (Event ν β)) (event : Event ν β) (p : Event ν β → Prop) :
    Prop :=
  ∃ source box, event.Unlocks source box ∧ ∀ origin ∈ events, ∀ source',
    origin.Locks source' box → source'.key = source.key → p origin

namespace Ideal

/-- A share that is kept was packed for the session of the vault. -/
theorem submit (h : Ideal events) {e : ν} {w : World β} {stamp : Stamp} {envelope : Envelope}
    {status : Status} (hstatus : (w.vault.submit stamp envelope).1 = .ok status)
    (hsuccess : status.success = true) (hevent : event = .deed e (.call w (.submit stamp envelope)))
    (hevents : events = later ++ event :: earlier) :
    ∃ session share rng rng', w.vault.phase = .unsealing session ∧
      .deal w.vault.settings.suite session.publicKey share rng ∈ earlier ∧
        Envelope.packShare w.vault.settings.suite session.publicKey share rng =
          (.ok envelope, rng') ∧
        w.vault.submit stamp envelope = w.vault.keepShare stamp share ∧
          event.UnlocksOnly events fun origin =>
            ∃ share rng, origin = .deal w.vault.settings.suite session.publicKey share rng := by
  rcases Vault.submit_cases stamp envelope w.vault with
    ⟨session, share, hphase, hopen, -, hkeep⟩ | ⟨hfailure, -⟩
  · obtain ⟨hunpack, -, -⟩ := Envelope.unpackShare_eq_ok_iff.mp hopen
    obtain ⟨source, box, hopen⟩ := Envelope.exists_unlocks_of_unpack hunpack
    have hunlocks : event.Unlocks source box := by
      rw [hevent]
      exact .submit hphase hopen
    obtain ⟨hmem, origin, hearlier, horigin, source', hlocks, hkey⟩ :=
      h.exists_origin hevents hunlocks
    obtain ⟨share', rng, rng', rfl, hpack, hbytes⟩ :=
      h.deal_of_locks hmem horigin hopen hunlocks hlocks hkey
    obtain rfl : share' = share := by
      cases share'
      cases share
      obtain ⟨rfl, rfl⟩ := List.cons.inj hbytes
      rfl
    refine ⟨session, share', rng, rng', hphase, hearlier, hpack, hkeep, source, box, hunlocks, ?_⟩
    intro origin horigin source' hlocks hkey
    obtain ⟨share, rng, -, rfl, -⟩ := h.deal_of_locks hmem horigin hopen hunlocks hlocks hkey
    exact ⟨share, rng, rfl⟩
  · rw [hfailure status hstatus] at hsuccess
    cases hsuccess

/-- A master key that is taken over was handed over for the session of the vault and the request
that it waits for. -/
theorem takeOver (h : Ideal events) {e : ν} {w : World β} {stamp : Stamp} {bundle : Envelope}
    (htake : (w.vault.takeOver stamp bundle).1 = .ok ())
    (hevent : event = .deed e (.call w (.takeOver stamp bundle)))
    (hevents : events = later ++ event :: earlier) :
    ∃ session nonce e' x stamp' r own masterKey, w.vault.phase = .unsealing session ∧
      w.vault.requestedNonce = some nonce ∧ .deed e' (.call x (.serve stamp' r)) ∈ earlier ∧
        r.sessionKey = session.publicKey ∧ r.nonce = nonce ∧
          (x.vault.serve stamp' r x.rng).1 = .ok bundle ∧
          x.vault.phase = .unsealed own masterKey ∧
            (w.vault.takeOver stamp bundle).2.phase = .unsealed session masterKey ∧
              event.UnlocksOnly events fun origin => ∃ e' x stamp' r,
                origin = .deed e' (.call x (.serve stamp' r)) ∧
                  r.sessionKey = session.publicKey ∧ r.nonce = nonce := by
  by_cases hopens : Vault.Opens bundle w.vault
  · obtain ⟨session, nonce, hphase, hnonce, htaken⟩ := Vault.takeOver_of_opens stamp hopens
    cases hbundle : Vault.openBundle w.vault.settings.suite session bundle nonce with
    | error refusal =>
      rw [htaken, hbundle] at htake
      cases htake
    | ok masterKey =>
      rw [hbundle] at htaken
      obtain ⟨source, box, hopen⟩ :=
        Envelope.exists_unlocks_of_unpack (Vault.openBundle_eq_ok_iff.mp hbundle)
      have hunlocks : event.Unlocks source box := by
        rw [hevent]
        exact .takeOver hphase hnonce hopen
      obtain ⟨hmem, origin, hearlier, horigin, source', hlocks, hkey⟩ :=
        h.exists_origin hevents hunlocks
      obtain ⟨e', x, stamp', r, own, masterKey', rfl, hr, hrnonce, hown, hserve, hbytes⟩ :=
        h.serve_of_locks hmem horigin hopen hunlocks hlocks hkey
      obtain rfl : masterKey' = masterKey := congrArg SecretKey.mk (Octets.ext hbytes)
      refine ⟨session, nonce, e', x, stamp', r, own, masterKey', hphase, hnonce, hearlier, hr,
        hrnonce, hserve, hown, by rw [htaken]; rfl, source, box, hunlocks, ?_⟩
      intro origin horigin source' hlocks hkey
      obtain ⟨e', x, stamp', r, -, -, rfl, hr, hrnonce, -⟩ :=
        h.serve_of_locks hmem horigin hopen hunlocks hlocks hkey
      exact ⟨e', x, stamp', r, rfl, hr, hrnonce⟩
  · obtain ⟨reason, htaken⟩ := Vault.takeOver_of_not_opens stamp hopens
    rw [htaken] at htake
    cases htake

/-- A token that is decoded was made by a vault with the same master key. -/
theorem decode (h : Ideal events) {e : ν} {w : World β} {t : TokenHandle} {i : ι} {serial : ℕ}
    {token : Token.Decoded} {u : Vault β} (hsound : Vault.Sound u w.vault)
    (hdecoded : (w.vault.issuer.present w.clock t i).1 = .decoded serial token)
    (hevent : event = .deed e (.present w t i)) (hevents : events = later ++ event :: earlier) :
    ∃ masterKey e' x, w.vault.phase.masterKey? = some masterKey ∧
      .deed e' (.call x (.issueToken token.payload)) ∈ earlier ∧
        x.vault.phase.masterKey? = some masterKey ∧
          (x.vault.issueToken token.payload x.clock.wall x.rng).1 = .ok (some t.text) ∧
          Token.header x.clock.wall.seconds = Token.header token.issuedAt.seconds ∧
            event.UnlocksOnly events fun origin => ∃ e' x,
              origin = .deed e' (.call x (.issueToken token.payload)) ∧
                Token.header x.clock.wall.seconds = Token.header token.issuedAt.seconds := by
  obtain ⟨installation, hinstalled, -, hdecode, -⟩ := Issuer.present_eq_decoded hdecoded
  -- the installed keys are those of the master key
  have hkeys := hsound.tokenKeys_eq
  rw [Vault.tokenKeys?, hinstalled] at hkeys
  cases hmaster : w.vault.phase.masterKey? with
  | none =>
    rw [hmaster] at hkeys
    cases hkeys
  | some masterKey =>
    rw [hmaster] at hkeys
    rw [show installation.keys = _ from Option.some.inj hkeys] at hdecode
    obtain ⟨source, box, hopen⟩ := Token.exists_unlocks_of_decode hdecode
    have hunlocks : event.Unlocks source box := by
      rw [hevent]
      exact .present hmaster hdecoded hopen
    obtain ⟨hmem, origin, hearlier, horigin, source', hlocks, hkey⟩ :=
      h.exists_origin hevents hunlocks
    obtain ⟨e', x, payload, rfl, hx, hissue, hheader, rfl⟩ :=
      h.issueToken_of_locks hmem horigin hopen hunlocks hlocks hkey
    refine ⟨masterKey, e', x, rfl, hearlier, hx, hissue, hheader, source, box, hunlocks, ?_⟩
    intro origin horigin source' hlocks hkey
    obtain ⟨e', x, payload, rfl, -, -, hheader, rfl⟩ :=
      h.issueToken_of_locks hmem horigin hopen hunlocks hlocks hkey
    exact ⟨e', x, rfl, hheader⟩

end Ideal

/-- **Provenance.**  Let any number of vaults run from their making on while shareholders pack
shares, with an ideal cipher, whatever messages the vaults are given.  An envelope whose share is
kept was packed with this share for the session that the vault is in.  An answer that is taken over
was given, with this master key, to a request for the session that the vault is in with the nonce
for which it waits.  A token that is decoded was issued under the master key that the vault has,
with the same header and payload.  Nothing that was locked for another purpose, another session,
another nonce or with another header is what is unlocked here. -/
theorem Trace.provenance [DecidableEq ν]
    (hstart : ∀ e, ∃ settings policy identity,
      Vault.ofSettings? settings policy identity = .ok (start e).vault)
    (h : Trace start events worlds) (hideal : Ideal events)
    (hevents : events = later ++ event :: earlier) :
    (∀ e w stamp envelope status, event = .deed e (.call w (.submit stamp envelope)) →
      (w.vault.submit stamp envelope).1 = .ok status → status.success = true →
        ∃ session share rng rng', w.vault.phase = .unsealing session ∧
          .deal w.vault.settings.suite session.publicKey share rng ∈ earlier ∧
            Envelope.packShare w.vault.settings.suite session.publicKey share rng =
              (.ok envelope, rng') ∧
            w.vault.submit stamp envelope = w.vault.keepShare stamp share ∧
              event.UnlocksOnly events fun origin => ∃ share rng,
                origin = .deal w.vault.settings.suite session.publicKey share rng) ∧
    (∀ e w stamp bundle, event = .deed e (.call w (.takeOver stamp bundle)) →
      (w.vault.takeOver stamp bundle).1 = .ok () →
        ∃ session nonce e' x stamp' r own masterKey, w.vault.phase = .unsealing session ∧
          w.vault.requestedNonce = some nonce ∧ .deed e' (.call x (.serve stamp' r)) ∈ earlier ∧
            r.sessionKey = session.publicKey ∧ r.nonce = nonce ∧
              (x.vault.serve stamp' r x.rng).1 = .ok bundle ∧
              x.vault.phase = .unsealed own masterKey ∧
                (w.vault.takeOver stamp bundle).2.phase = .unsealed session masterKey ∧
                  event.UnlocksOnly events fun origin => ∃ e' x stamp' r,
                    origin = .deed e' (.call x (.serve stamp' r)) ∧
                      r.sessionKey = session.publicKey ∧ r.nonce = nonce) ∧
    ∀ e w t i serial token, event = .deed e (.present w t i) →
      (w.vault.issuer.present w.clock t i).1 = .decoded serial token →
        ∃ masterKey e' x, w.vault.phase.masterKey? = some masterKey ∧
          .deed e' (.call x (.issueToken token.payload)) ∈ earlier ∧
            x.vault.phase.masterKey? = some masterKey ∧
              (x.vault.issueToken token.payload x.clock.wall x.rng).1 = .ok (some t.text) ∧
              Token.header x.clock.wall.seconds = Token.header token.issuedAt.seconds ∧
                event.UnlocksOnly events fun origin => ∃ e' x,
                  origin = .deed e' (.call x (.issueToken token.payload)) ∧
                    Token.header x.clock.wall.seconds =
                      Token.header token.issuedAt.seconds := by
  have hfresh : ∀ e, ∃ u, Vault.Sound u (start e).vault := by
    intro e
    obtain ⟨settings, policy, identity, hv⟩ := hstart e
    obtain ⟨-, hvault⟩ := Vault.ofSettings?_eq_ok_iff.mp hv
    rw [hvault]
    exact ⟨_, Vault.Sound.fresh settings policy identity⟩
  refine ⟨?_, ?_, ?_⟩
  · intro e w stamp envelope status hevent hstatus hsuccess
    exact hideal.submit hstatus hsuccess hevent hevents
  · intro e w stamp bundle hevent htake
    exact hideal.takeOver htake hevent hevents
  · intro e w t i serial token hevent hdecoded
    have hmem : .deed e (.present w t i) ∈ events := by
      rw [hevents, hevent]
      exact List.mem_append_right _ List.mem_cons_self
    obtain ⟨u, hsound⟩ := (h.sound hfresh).2 e _ hmem
    exact hideal.decode hsound hdecoded hevent hevents

/-- A vault keeps a share that was packed for its session. -/
theorem Trace.provenance_of_share :
    ∃ (events : List (Event Unit fun _ : Unit => Unit)) (worlds : Unit → World fun _ : Unit => Unit)
      (w : World fun _ : Unit => Unit) (session : KeyPair) (envelope : Envelope) (share : Share)
      (rng : Entropy), Trace (fun _ => .blank _) events worlds ∧ Ideal events ∧
        .deal .aes256Gcm session.publicKey share rng ∈ events ∧
          w.vault.submit .blank envelope = w.vault.keepShare .blank share := by
  let start : Unit → World fun _ : Unit => Unit := fun _ => .blank _
  let w : World fun _ : Unit => Unit := .starting _
  let session : KeyPair := ⟨.zeros 32⟩
  let share : Share := ⟨1, [7]⟩
  -- a share is packed for the session of the vault
  have hlabel : Envelope.shareLabel.length ≤ Gcm.maxLength := by decide
  obtain ⟨envelope, hpackWith⟩ : ∃ envelope, Envelope.packWith .aes256Gcm (.zeros 32) (.zeros 16)
      session.publicKey Envelope.shareLabel share.toBytes = .ok envelope :=
    Envelope.exists_packWith .aes256Gcm (.zeros 16) (by decide +kernel) (by decide) hlabel
  obtain ⟨rng, rng', hpack⟩ := Envelope.exists_pack_of_packWith hpackWith
  obtain ⟨source, box, hlock⟩ := Envelope.exists_locks_of_pack hpack
  have hopen : envelope.unpackShare .aes256Gcm session = .ok share :=
    Envelope.unpackShare_of_packShare (by decide) (by decide) hpack
  have hsubmit : w.vault.submit .blank envelope = w.vault.keepShare .blank share := by
    rw [Vault.submit, show w.vault.phase = .unsealing session from rfl]
    simp only [show w.vault.settings.suite = .aes256Gcm from rfl, hopen]
    rfl
  -- the run
  let events : List (Event Unit fun _ : Unit => Unit) :=
    [.deed () (.call w (.submit .blank envelope)), .deal .aes256Gcm session.publicKey share rng,
      .deed () (.call (.blank _) (.startSession .blank))]
  have hstarted : Trace start [.deed () (.call (.blank _) (.startSession .blank))] _ :=
    Trace.refl.goOn () (History.refl.call (.startSession .blank))
  have htrace : Trace start events _ :=
    (hstarted.deal .aes256Gcm session.publicKey share rng).goOn ()
      (History.refl.call (.submit .blank envelope))
  -- the one key that is used comes from the exchange of the shareholder with the vault
  have hunlocks {source' : KeySource} {box' : SecretBox}
      (h : Event.Unlocks (.deed () (.call w (.submit .blank envelope))) source' box') :
      source' = source ∧ box' = box := by
    cases h with
    | submit hphase h =>
      obtain rfl := Phase.unsealing.inj hphase
      exact h.source_eq hlock
  have hderives : ∀ event ∈ events, ∀ source', event.Derives source' → source' = source := by
    intro event hevent source' hderives
    simp only [events, List.mem_cons, List.not_mem_nil, or_false] at hevent
    obtain ⟨box', hlocks | hopens⟩ := hderives
    · rcases hevent with rfl | rfl | rfl
      · cases hlocks
      · cases hlocks with
        | deal h => exact h.source_eq hlock
      · cases hlocks
    · rcases hevent with rfl | rfl | rfl
      · exact (hunlocks hopens).1
      · cases hopens
      · cases hopens
  have hideal : Ideal events := by
    constructor
    · intro later event earlier hevents source' box' hopens
      rcases later with - | ⟨a, - | ⟨b, - | ⟨c, later⟩⟩⟩
      · obtain ⟨rfl, rfl⟩ := List.cons.inj hevents
        obtain ⟨rfl, rfl⟩ := hunlocks hopens
        exact ⟨_, List.mem_cons_self, source', .deal hlock, rfl⟩
      · obtain ⟨-, hevents⟩ := List.cons.inj hevents
        obtain ⟨rfl, -⟩ := List.cons.inj hevents
        cases hopens
      · obtain ⟨-, hevents⟩ := List.cons.inj hevents
        obtain ⟨-, hevents⟩ := List.cons.inj hevents
        obtain ⟨rfl, -⟩ := List.cons.inj hevents
        cases hopens
      · have hlength := congrArg List.length hevents
        simp [events] at hlength
    · intro a ha b hb source₁ source₂ h₁ h₂ _ _
      rw [hderives a ha source₁ h₁, hderives b hb source₂ h₂]
  have hstart : ∀ e, ∃ settings policy identity, Vault.ofSettings? settings policy identity =
      .ok (start e).vault :=
    fun _ => ⟨.standard, .alwaysAccept, none, rfl⟩
  obtain ⟨hshare, -, -⟩ := htrace.provenance hstart hideal (List.nil_append events).symm
  obtain ⟨session', share', rng₁, -, hphase, hdeal, -, hkeep, -⟩ :=
    hshare () w .blank envelope _ rfl (congrArg Prod.fst hsubmit) rfl
  exact ⟨events, _, w, session', envelope, share', rng₁, htrace, hideal,
    List.mem_cons_of_mem _ hdeal, hkeep⟩

end QuorumVault
