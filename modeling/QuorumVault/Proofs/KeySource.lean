import Mathlib.Tactic
import QuorumVault.Proofs.Envelope
import QuorumVault.Proofs.Token.Format

/-!
# Where keys come from

Messages are locked under keys of two kinds, those that are derived in an exchange and those that
are derived from a master key for tokens; a `KeySource` is what such a key is derived from.  The key
of an envelope comes from the exchange of its encapsulation with the recipient, on the side of the
sender (`Envelope.Locks`) and on that of the recipient (`Envelope.Unlocks`).

An envelope that is opened to a box, under a key from some source, is the very envelope that was
packed when this box was locked under a key from the same source (`Envelope.Unlocks.eq_of_locks`).
-/

namespace QuorumVault

/-- What the key of a locked message is derived from. -/
inductive KeySource where
  | exchange (suite : CipherSuite) (shared encapsulation recipient : Octets 32)
  | tokens (masterKey : SecretKey)
deriving DecidableEq

namespace KeySource

def key : KeySource → SecretKey
  | exchange suite shared encapsulation recipient =>
    Exchange.derive suite shared encapsulation recipient
  | tokens masterKey => (TokenKeys.derive masterKey).encryption

def isExchange : KeySource → Bool
  | exchange _ _ _ _ => true
  | tokens _ => false

end KeySource

/-! ### Envelopes -/

namespace Envelope

variable {suite suite' : CipherSuite} {recipient : PublicKey} {pair : KeyPair}
  {associated associated' message message' : Bytes} {rng rng' : Entropy}
  {envelope envelope' : Envelope} {source source' : KeySource} {box box' : SecretBox}

/-- A message is packed with random bytes: it is locked as `box` under the key from `source`, which
is derived in the exchange of an ephemeral secret with the recipient. -/
def Locks (suite : CipherSuite) (recipient : PublicKey) (associated message : Bytes)
    (rng : Entropy) (envelope : Envelope) (source : KeySource) (box : SecretBox) : Prop :=
  ∃ ephemeral rng₁ rng', rng.draw? 32 = some (ephemeral, rng₁) ∧
    source = .exchange suite (X25519.exchange ephemeral recipient.octets)
      (X25519.publicKey ephemeral) recipient.octets ∧
    SecretBox.lockWith source.key box.iv associated message = .ok box ∧
    envelope = .ofBox (X25519.publicKey ephemeral) box ∧
    pack suite recipient associated message rng = (.ok envelope, rng')

/-- An envelope is opened: it carries `box`, which is unlocked with the key from `source`, and this
one is derived in the exchange of the encapsulation with the key pair. -/
def Unlocks (suite : CipherSuite) (pair : KeyPair) (associated message : Bytes)
    (envelope : Envelope) (source : KeySource) (box : SecretBox) : Prop :=
  ∃ peer, envelope = .ofBox peer box ∧ box.associated = associated ∧
    source = .exchange suite (X25519.exchange pair.secret peer) peer pair.publicKey.octets ∧
    box.unlock source.key = .ok message

/-- Whatever is packed is locked under a key from an exchange. -/
theorem exists_locks_of_pack
    (h : pack suite recipient associated message rng = (.ok envelope, rng')) :
    ∃ source box, Locks suite recipient associated message rng envelope source box := by
  obtain ⟨ephemeral, iv, rng₁, hephemeral, hiv, hpackWith⟩ := pack_eq_ok_iff.mp h
  obtain ⟨e, box, he, hbox, rfl⟩ := packWith_eq_ok_iff.mp hpackWith
  obtain ⟨hencapsulation, hkey⟩ := PublicKey.encapsulateWith_eq_ok_iff.mp he
  obtain ⟨-, hkey⟩ := Exchange.agree_eq_ok_iff.mp hkey
  obtain ⟨rfl, -, -⟩ := SecretBox.lockWith_eq_ok_iff.mp hbox
  rw [hkey, hencapsulation] at hbox
  exact ⟨_, box, ephemeral, rng₁, rng', hephemeral, rfl, hbox, by rw [hencapsulation], h⟩

/-- Whatever is opened is unlocked with a key from an exchange. -/
theorem exists_unlocks_of_unpack (h : envelope.unpack suite pair associated = .ok message) :
    ∃ source box, Unlocks suite pair associated message envelope source box := by
  unfold unpack at h
  cases hkey : pair.decapsulate suite envelope.encapsulation with
  | error fault =>
    rw [hkey] at h
    cases h
  | ok key =>
    cases hbox : envelope.box? associated with
    | error fault =>
      rw [hkey, hbox] at h
      cases h
    | ok box =>
      rw [hkey, hbox] at h
      have hunlock : box.unlock key = .ok message := h
      obtain ⟨peer, hpeer, -, hkey⟩ := KeyPair.decapsulate_eq_ok_iff.mp hkey
      obtain ⟨hcipher, hiv, hassociated⟩ := SecretBox.ofParts?_eq_ok_iff.mp hbox
      refine ⟨_, box, peer, ?_, hassociated, rfl, ?_⟩
      · rw [ofBox, hcipher, hiv, ← hpeer]
      · rw [hkey] at hunlock
        exact hunlock

theorem Locks.associated_eq
    (h : Locks suite recipient associated message rng envelope source box) :
    box.associated = associated := by
  obtain ⟨-, -, -, -, -, hlock, -, -⟩ := h
  exact (SecretBox.lockWith_eq_ok_iff.mp hlock).2.1

theorem Locks.isExchange_eq
    (h : Locks suite recipient associated message rng envelope source box) :
    source.isExchange = true := by
  obtain ⟨-, -, -, -, rfl, -⟩ := h
  rfl

theorem Unlocks.isExchange_eq
    (h : Unlocks suite pair associated message envelope source box) :
    source.isExchange = true := by
  obtain ⟨-, -, -, rfl, -⟩ := h
  rfl

/-- **Provenance**: an envelope that is opened is the one that was packed, for the key pair and with
the message to which it is opened, if its box was locked under a key from the same source. -/
theorem Unlocks.eq_of_locks (h : Unlocks suite pair associated message envelope source box)
    (hlock : Locks suite' recipient associated' message' rng envelope' source box) :
    suite' = suite ∧ recipient = pair.publicKey ∧ associated' = associated ∧ message' = message ∧
      envelope' = envelope := by
  have hassociated' := hlock.associated_eq
  obtain ⟨peer, rfl, hassociated, hsource, hunlock⟩ := h
  obtain ⟨ephemeral, rng₁, rng', -, hsource', hlockWith, rfl, -⟩ := hlock
  obtain ⟨rfl, -, hpeer, hrecipient⟩ := KeySource.exchange.inj (hsource'.symm.trans hsource)
  obtain rfl : associated' = associated := hassociated'.symm.trans hassociated
  have hunlock' : box.unlock source.key = .ok message' := by
    rw [SecretBox.unlock_eq_ok_iff, hassociated]
    exact hlockWith
  exact ⟨rfl, congrArg PublicKey.mk hrecipient, rfl, Except.ok.inj (hunlock'.symm.trans hunlock),
    by rw [hpeer]⟩

/-- The other way round: an envelope that was packed for a key pair is opened to the box that was
locked, with a key from the same source. -/
theorem Unlocks.source_eq
    (h : Unlocks suite pair associated message envelope source box)
    (hlock : Locks suite pair.publicKey associated message' rng envelope source' box') :
    source = source' ∧ box = box' := by
  have hassociated' := hlock.associated_eq
  obtain ⟨peer, henvelope, hassociated, rfl, -⟩ := h
  obtain ⟨ephemeral, rng₁, rng', -, rfl, -, henvelope', -⟩ := hlock
  obtain ⟨hpeer, hiv, hcipher⟩ := Envelope.mk.inj (henvelope.symm.trans henvelope')
  obtain rfl : peer = X25519.publicKey ephemeral := Octets.ext hpeer
  constructor
  · rw [KeyPair.publicKey, X25519.exchange_publicKey]
  · cases box
    cases box'
    obtain rfl := Octets.ext hiv
    cases hcipher
    rw [SecretBox.mk.injEq]
    exact ⟨rfl, rfl, hassociated.trans hassociated'.symm⟩

/-- The random bytes determine from what the key is derived. -/
theorem Locks.source_eq
    (h : Locks suite recipient associated message rng envelope source box)
    (h' : Locks suite recipient associated message rng envelope' source' box') :
    source = source' := by
  obtain ⟨ephemeral, rng₁, rng', hdraw, rfl, -⟩ := h
  obtain ⟨ephemeral', rng₂, rng₃, hdraw', rfl, -⟩ := h'
  obtain ⟨rfl, -⟩ := Prod.mk.inj (Option.some.inj (hdraw.symm.trans hdraw'))
  rfl

end Envelope

/-! ### Tokens -/

namespace Token

/-- A token is made: its payload is locked as `box`, with the header for the second of issue. -/
def Locks (masterKey : SecretKey) (payload : Bytes) (stamp : Timestamp) (text : String)
    (source : KeySource) (box : SecretBox) : Prop :=
  source = .tokens masterKey ∧ text = textOf (TokenKeys.derive masterKey) box ∧
    SecretBox.lockWith source.key box.iv (header stamp.seconds) payload = .ok box

/-- A token is decoded: its text carries `box`, which is unlocked to the payload. -/
def Unlocks (masterKey : SecretKey) (text : String) (token : Decoded) (source : KeySource)
    (box : SecretBox) : Prop :=
  source = .tokens masterKey ∧ text = textOf (TokenKeys.derive masterKey) box ∧
    box.associated = header token.issuedAt.seconds ∧ box.unlock source.key = .ok token.payload

theorem exists_unlocks_of_decode {masterKey : SecretKey} {text : String} {now : Timestamp}
    {maxAge : Option Duration} {token : Decoded}
    (h : decode (TokenKeys.derive masterKey) text now maxAge = .ok token) :
    ∃ source box, Unlocks masterKey text token source box := by
  obtain ⟨issuedAt, payload⟩ := token
  obtain ⟨-, -, iv, hencode⟩ := decode_eq_ok_iff.mp h
  obtain ⟨box, hlock, htext⟩ := encodeWith_eq_ok_iff.mp hencode
  obtain ⟨rfl, hassociated, -⟩ := SecretBox.lockWith_eq_ok_iff.mp hlock
  refine ⟨.tokens masterKey, box, rfl, htext.symm, hassociated, ?_⟩
  rw [SecretBox.unlock_eq_ok_iff, hassociated]
  exact hlock

/-- **Provenance**: a token that is decoded is the one that was made when its box was locked under
the key of the same master key, with the same header and payload. -/
theorem Unlocks.eq_of_locks {masterKey masterKey' : SecretKey} {text text' : String}
    {token : Decoded} {payload : Bytes} {stamp : Timestamp} {source : KeySource} {box : SecretBox}
    (h : Unlocks masterKey text token source box)
    (hlock : Locks masterKey' payload stamp text' source box) :
    masterKey' = masterKey ∧ text' = text ∧ header stamp.seconds = header token.issuedAt.seconds ∧
      payload = token.payload := by
  obtain ⟨hsource, rfl, hassociated, hunlock⟩ := h
  obtain ⟨hsource', rfl, hlockWith⟩ := hlock
  obtain rfl : masterKey' = masterKey := KeySource.tokens.inj (hsource'.symm.trans hsource)
  have hassociated' := (SecretBox.lockWith_eq_ok_iff.mp hlockWith).2.1
  have hunlock' : box.unlock source.key = .ok payload := by
    rw [SecretBox.unlock_eq_ok_iff, hassociated']
    exact hlockWith
  exact ⟨rfl, rfl, hassociated'.symm.trans hassociated,
    Except.ok.inj (hunlock'.symm.trans hunlock)⟩

end Token

end QuorumVault
