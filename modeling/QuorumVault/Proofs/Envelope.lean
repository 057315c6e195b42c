import Mathlib.Tactic
import QuorumVault.Envelope
import QuorumVault.Proofs.Key.Exchange
import QuorumVault.Proofs.Key.SecretBox
import QuorumVault.Proofs.Sharing.Share

/-!
# Opening what was packed

The owner of a key pair derives the key that a sender has made for it, so that an envelope gives
back the message for which it was packed (`unpack_of_pack`), and that of a share the share
(`unpackShare_of_packShare`).  An envelope is packed whenever the exchange contributes a secret and
the message is not too long (`exists_packWith`).
-/

namespace QuorumVault

namespace Envelope

variable {suite : CipherSuite} {recipient : PublicKey} {associated message : Bytes}

/-! ### Packing -/

theorem packWith_eq_ok_iff {ephemeral : Octets 32} {iv : Octets 16} {envelope : Envelope} :
    packWith suite ephemeral iv recipient associated message = .ok envelope ↔
      ∃ e box, recipient.encapsulateWith suite ephemeral = .ok e ∧
        SecretBox.lockWith e.key iv associated message = .ok box ∧
          envelope = ofBox e.encapsulation box := by
  unfold packWith
  cases he : recipient.encapsulateWith suite ephemeral with
  | error fault => simp [bind, Except.bind]
  | ok e =>
    cases hbox : SecretBox.lockWith e.key iv associated message with
    | error fault => simp [bind, Except.bind, hbox]
    | ok box => simp [bind, Except.bind, pure, Except.pure, hbox, eq_comm]

theorem pack_eq_ok_iff {envelope : Envelope} {rng rng' : Entropy} :
    pack suite recipient associated message rng = (.ok envelope, rng') ↔
      ∃ ephemeral iv rng₁, rng.draw? 32 = some (ephemeral, rng₁) ∧
        rng₁.draw? 16 = some (iv, rng') ∧
          packWith suite ephemeral iv recipient associated message = .ok envelope := by
  simp only [pack, SecretBox.lock, Drawing.bind_eq_ok_iff, PublicKey.encapsulate_eq_ok_iff,
    Drawing.octets_eq_ok_iff, Drawing.ofExcept_eq_ok_iff, Drawing.pure_eq_ok_iff,
    packWith_eq_ok_iff]
  constructor
  · rintro ⟨e, rng₁, ⟨ephemeral, hephemeral, he⟩, box, _, ⟨iv, _, hiv, hbox, rfl⟩, rfl, rfl⟩
    exact ⟨ephemeral, iv, _, hephemeral, hiv, e, box, he, hbox, rfl⟩
  · rintro ⟨ephemeral, iv, rng₁, hephemeral, hiv, e, box, he, hbox, rfl⟩
    exact ⟨e, _, ⟨ephemeral, hephemeral, he⟩, box, _, ⟨iv, _, hiv, hbox, rfl⟩, rfl, rfl⟩

/-- Every ephemeral secret and initialisation vector are drawn from some source. -/
theorem exists_pack_of_packWith {ephemeral : Octets 32} {iv : Octets 16} {envelope : Envelope}
    (h : packWith suite ephemeral iv recipient associated message = .ok envelope) :
    ∃ rng rng', pack suite recipient associated message rng = (.ok envelope, rng') := by
  -- the source that consists of these two, one after the other
  have hephemeral := Entropy.draw?_ofBytes [] ephemeral iv.toList
  have hiv := Entropy.draw?_ofBytes ephemeral.toList iv []
  rw [List.nil_append, List.length_nil, Nat.zero_add] at hephemeral
  rw [List.append_nil, ephemeral.length_toList] at hiv
  exact ⟨_, _, pack_eq_ok_iff.mpr ⟨ephemeral, iv, _, hephemeral, hiv, h⟩⟩

/-- A message that is not too long is packed whenever the exchange contributes a secret. -/
theorem exists_packWith (suite : CipherSuite) {ephemeral : Octets 32} (iv : Octets 16)
    (hshared : X25519.isContributory (X25519.exchange ephemeral recipient.octets) = true)
    (hmessage : message.length ≤ Gcm.maxLength) (hassociated : associated.length ≤ Gcm.maxLength) :
    ∃ envelope, packWith suite ephemeral iv recipient associated message = .ok envelope := by
  let e : Encapsulated := ⟨Exchange.derive suite (X25519.exchange ephemeral recipient.octets)
    (X25519.publicKey ephemeral) recipient.octets, X25519.publicKey ephemeral⟩
  have he : recipient.encapsulateWith suite ephemeral = .ok e :=
    PublicKey.encapsulateWith_eq_ok_iff.mpr
      ⟨rfl, Exchange.agree_eq_ok_iff.mpr ⟨hshared, rfl⟩⟩
  obtain ⟨box, hbox⟩ := (SecretBox.exists_lockWith_iff e.key iv associated message).mpr
    ⟨hmessage, hassociated⟩
  exact ⟨_, packWith_eq_ok_iff.mpr ⟨e, box, he, hbox, rfl⟩⟩

/-! ### Opening -/

theorem unpack_of_packWith {pair : KeyPair} {ephemeral : Octets 32} {iv : Octets 16}
    {envelope : Envelope}
    (h : packWith suite ephemeral iv pair.publicKey associated message = .ok envelope) :
    envelope.unpack suite pair associated = .ok message := by
  obtain ⟨e, box, he, hbox, rfl⟩ := packWith_eq_ok_iff.mp h
  obtain ⟨rfl, rfl, hcipher⟩ := SecretBox.lockWith_eq_ok_iff.mp hbox
  have hbox? : (ofBox e.encapsulation box).box? box.associated = .ok box :=
    SecretBox.ofParts?_eq_ok_iff.mpr ⟨rfl, rfl, rfl⟩
  have hkey : pair.decapsulate suite (ofBox e.encapsulation box).encapsulation = .ok e.key :=
    KeyPair.decapsulate_encapsulateWith he
  rw [unpack, hkey, hbox?]
  exact SecretBox.unlock_eq_ok_iff.mpr hbox

/-- **Round trip**: an envelope gives back the message for which it was packed. -/
theorem unpack_of_pack {pair : KeyPair} {envelope : Envelope} {rng rng' : Entropy}
    (h : pack suite pair.publicKey associated message rng = (.ok envelope, rng')) :
    envelope.unpack suite pair associated = .ok message := by
  obtain ⟨_, _, _, -, -, h⟩ := pack_eq_ok_iff.mp h
  exact unpack_of_packWith h

theorem unpackShare_eq_ok_iff {pair : KeyPair} {envelope : Envelope} {share : Share} :
    envelope.unpackShare suite pair = .ok share ↔
      envelope.unpack suite pair shareLabel = .ok share.toBytes ∧ share.index ≠ 0 ∧
        share.bytes ≠ [] := by
  unfold unpackShare
  cases h : envelope.unpack suite pair shareLabel with
  | error fault => simp [bind, Except.bind]
  | ok message => simp [bind, Except.bind, Share.ofBytes?_eq_ok_iff]

/-- **Round trip**: the envelope of a share gives back the share. -/
theorem unpackShare_of_packShare {pair : KeyPair} {share : Share} {envelope : Envelope}
    {rng rng' : Entropy} (hindex : share.index ≠ 0) (hbytes : share.bytes ≠ [])
    (h : packShare suite pair.publicKey share rng = (.ok envelope, rng')) :
    envelope.unpackShare suite pair = .ok share :=
  unpackShare_eq_ok_iff.mpr ⟨unpack_of_pack h, hindex, hbytes⟩

end Envelope

end QuorumVault
