import Mathlib.Tactic
import QuorumVault.Key.Exchange
import QuorumVault.Proofs.Curve.X25519
import QuorumVault.Proofs.Entropy

/-!
# Agreement on a key

Sender and recipient come to the shared secret in different ways, the sender from its ephemeral
secret and the public key, the recipient from its own secret and the encapsulation.  Since an
exchange is the same from both sides (`X25519.exchange_publicKey`), the sender makes what the
recipient derives from the ephemeral public key (`KeyPair.encapsulateWith_publicKey`): the two agree
on the key, and on the refusal where the exchange contributes no secret (`decapsulate_exact`).
-/

namespace QuorumVault

/-! ### The key of an exchange -/

namespace Exchange

variable {suite : CipherSuite}

theorem agree_eq_ok_iff {secret peer encapsulation recipient : Octets 32} {key : SecretKey} :
    agree suite secret peer encapsulation recipient = .ok key ↔
      X25519.isContributory (X25519.exchange secret peer) = true ∧
        key = derive suite (X25519.exchange secret peer) encapsulation recipient := by
  unfold agree
  simp only
  split_ifs with h
  · simp [h, eq_comm]
  · simp [h]

/-- There is one reason to refuse an exchange. -/
theorem agree_cases (suite : CipherSuite) (secret peer encapsulation recipient : Octets 32) :
    (∃ key, agree suite secret peer encapsulation recipient = .ok key) ∨
      agree suite secret peer encapsulation recipient = .error .nonContributory := by
  unfold agree
  simp only
  split_ifs with h
  · exact .inl ⟨_, rfl⟩
  · exact .inr rfl

/-- The holders of two secrets agree, whichever of them computes. -/
theorem agree_publicKey (a b encapsulation recipient : Octets 32) :
    agree suite a (X25519.publicKey b) encapsulation recipient =
      agree suite b (X25519.publicKey a) encapsulation recipient := by
  rw [agree, agree, X25519.exchange_publicKey]

end Exchange

/-! ### Encapsulation -/

namespace PublicKey

variable {suite : CipherSuite} {ephemeral : Octets 32} {recipient : PublicKey} {e : Encapsulated}
  {rng rng' : Entropy}

/-- A key is made exactly if the exchange contributes a secret. -/
theorem encapsulateWith_eq_ok_iff :
    recipient.encapsulateWith suite ephemeral = .ok e ↔
      e.encapsulation = X25519.publicKey ephemeral ∧
        Exchange.agree suite ephemeral recipient.octets e.encapsulation recipient.octets =
          .ok e.key := by
  unfold encapsulateWith
  simp only
  constructor
  · intro h
    split at h
    · rename_i key hkey
      obtain rfl := Except.ok.inj h
      exact ⟨rfl, hkey⟩
    · cases h
  · rintro ⟨hencapsulation, hkey⟩
    rw [← hencapsulation, hkey]

theorem encapsulate_eq_ok_iff :
    recipient.encapsulate suite rng = (.ok e, rng') ↔
      ∃ ephemeral, rng.draw? 32 = some (ephemeral, rng') ∧
        recipient.encapsulateWith suite ephemeral = .ok e := by
  simp only [encapsulate, Drawing.bind_eq_ok_iff, Drawing.octets_eq_ok_iff,
    Drawing.ofExcept_eq_ok_iff]
  constructor
  · rintro ⟨ephemeral, _, hdraw, he, rfl⟩
    exact ⟨ephemeral, hdraw, he⟩
  · rintro ⟨ephemeral, hdraw, he⟩
    exact ⟨ephemeral, _, hdraw, he, rfl⟩

theorem encapsulate_of_draw (hdraw : rng.draw? 32 = some (ephemeral, rng')) :
    recipient.encapsulate suite rng =
      ((recipient.encapsulateWith suite ephemeral).mapError .fault, rng') := by
  rw [encapsulate, Drawing.octets_bind_of_draw _ hdraw]
  rfl

end PublicKey

namespace KeyPair

variable {suite : CipherSuite} {pair : KeyPair}

/-! ### Decapsulation -/

theorem decapsulate_toList (suite : CipherSuite) (pair : KeyPair) (encapsulation : Octets 32) :
    pair.decapsulate suite encapsulation.toList =
      Exchange.agree suite pair.secret encapsulation encapsulation pair.publicKey.octets := by
  rw [decapsulate, Octets.ofBytes?_toList]

theorem decapsulate_eq_ok_iff {encapsulation : Bytes} {key : SecretKey} :
    pair.decapsulate suite encapsulation = .ok key ↔
      ∃ peer : Octets 32, encapsulation = peer.toList ∧
        X25519.isContributory (X25519.exchange pair.secret peer) = true ∧
          key = Exchange.derive suite (X25519.exchange pair.secret peer) peer
            pair.publicKey.octets := by
  constructor
  · intro h
    unfold decapsulate at h
    split at h
    · rename_i peer hpeer
      obtain ⟨hshared, hkey⟩ := Exchange.agree_eq_ok_iff.mp h
      exact ⟨peer, (Octets.toList_ofBytes? hpeer).symm, hshared, hkey⟩
    · cases h
  · rintro ⟨peer, rfl, hshared, hkey⟩
    rw [decapsulate_toList]
    exact Exchange.agree_eq_ok_iff.mpr ⟨hshared, hkey⟩

/-! ### Agreement -/

/-- What a sender makes for the owner of a key pair is what the owner derives from the ephemeral
public key, whether this is a key or a refusal. -/
theorem encapsulateWith_publicKey (suite : CipherSuite) (pair : KeyPair) (ephemeral : Octets 32) :
    pair.publicKey.encapsulateWith suite ephemeral =
      (pair.decapsulate suite (X25519.publicKey ephemeral).toList).map
        fun key => ⟨key, X25519.publicKey ephemeral⟩ := by
  -- the sender exchanges its ephemeral secret for the public key, the recipient the other way round
  rw [decapsulate_toList, Exchange.agree_publicKey, PublicKey.encapsulateWith, publicKey]
  simp only
  cases Exchange.agree suite ephemeral (X25519.publicKey pair.secret)
    (X25519.publicKey ephemeral) (X25519.publicKey pair.secret) <;> rfl

/-- The recipient derives the key that the sender has made. -/
theorem decapsulate_encapsulateWith {ephemeral : Octets 32} {e : Encapsulated}
    (h : pair.publicKey.encapsulateWith suite ephemeral = .ok e) :
    pair.decapsulate suite e.encapsulation.toList = .ok e.key := by
  rw [encapsulateWith_publicKey] at h
  cases hkey : pair.decapsulate suite (X25519.publicKey ephemeral).toList with
  | error fault =>
    rw [hkey] at h
    cases h
  | ok key =>
    rw [hkey] at h
    obtain rfl := Except.ok.inj h
    exact hkey

/-- **Agreement.**  A recipient derives from an encapsulation the very key that was made with it.  A
sender with a given ephemeral secret makes a key for the recipient, or refuses, and it refuses iff
the recipient refuses the ephemeral public key.  Whatever else a recipient is given, it derives a
key from any 32 bytes, and the bytes as they are and its own public key are the salt, unless the
exchange contributes no secret; and it refuses every other number of bytes as malformed. -/
theorem decapsulate_exact (suite : CipherSuite) (pair : KeyPair) :
    (∀ e rng rng', pair.publicKey.encapsulate suite rng = (.ok e, rng') →
      pair.decapsulate suite e.encapsulation.toList = .ok e.key) ∧
    (∀ ephemeral rng rng', rng.draw? 32 = some (ephemeral, rng') →
      ((∃ key, pair.publicKey.encapsulate suite rng =
          (.ok ⟨key, X25519.publicKey ephemeral⟩, rng')) ∨
        pair.publicKey.encapsulate suite rng = (.error (.fault .nonContributory), rng')) ∧
      (pair.publicKey.encapsulate suite rng = (.error (.fault .nonContributory), rng') ↔
        pair.decapsulate suite (X25519.publicKey ephemeral).toList = .error .nonContributory)) ∧
    (∀ encapsulation : Octets 32, pair.decapsulate suite encapsulation.toList =
      if X25519.isContributory (X25519.exchange pair.secret encapsulation) then
        .ok ⟨Hkdf.derive (encapsulation.toList ++ pair.publicKey.octets.toList)
          (X25519.exchange pair.secret encapsulation).toList (Exchange.purpose suite)⟩
      else .error .nonContributory) ∧
    ∀ encapsulation : Bytes, encapsulation.length ≠ 32 →
      pair.decapsulate suite encapsulation =
        .error (.encapsulation s!"expected 32 bytes, got {encapsulation.length}") := by
  refine ⟨?_, ?_, ?_, ?_⟩
  · intro e rng rng' h
    obtain ⟨ephemeral, -, he⟩ := PublicKey.encapsulate_eq_ok_iff.mp h
    exact decapsulate_encapsulateWith he
  · intro ephemeral rng rng' hdraw
    have hcases := Exchange.agree_cases suite pair.secret (X25519.publicKey ephemeral)
      (X25519.publicKey ephemeral) pair.publicKey.octets
    rw [← decapsulate_toList] at hcases
    rw [PublicKey.encapsulate_of_draw hdraw, encapsulateWith_publicKey]
    rcases hcases with ⟨key, hkey⟩ | hkey
    · rw [hkey]
      exact ⟨.inl ⟨key, rfl⟩, nofun, nofun⟩
    · rw [hkey]
      exact ⟨.inr rfl, fun _ => rfl, fun _ => rfl⟩
  · intro encapsulation
    rw [decapsulate_toList]
    rfl
  · intro encapsulation hlength
    rw [decapsulate, Octets.ofBytes?, dif_neg hlength]

/-- Two parties of which each has the secret of zeros agree; an encapsulation of zeros is refused,
also with its ignored top bit set, and so is one of 31 bytes. -/
theorem decapsulate_exact_zeros :
    (∃ e rng', (publicKey ⟨.zeros 32⟩).encapsulate .aes256Gcm (.ofBytes (Octets.zeros 32).toList) =
        (.ok e, rng') ∧
      decapsulate .aes256Gcm ⟨.zeros 32⟩ e.encapsulation.toList = .ok e.key) ∧
    decapsulate .aes256Gcm ⟨.zeros 32⟩ (List.replicate 32 0) = .error .nonContributory ∧
    decapsulate .aes256Gcm ⟨.zeros 32⟩ (List.replicate 31 0 ++ [128]) = .error .nonContributory ∧
    decapsulate .aes256Gcm ⟨.zeros 32⟩ (List.replicate 31 0) =
      .error (.encapsulation "expected 32 bytes, got 31") := by
  obtain ⟨hok, hdrawn, hderived, hmalformed⟩ := decapsulate_exact .aes256Gcm ⟨.zeros 32⟩
  refine ⟨?_, ?_, ?_, ?_⟩
  · obtain ⟨rng', hdraw⟩ := Entropy.exists_draw?_eq (.zeros 32)
    obtain ⟨⟨key, hkey⟩ | hrefused, hiff⟩ := hdrawn _ _ _ hdraw
    · exact ⟨_, rng', hkey, hok _ _ _ hkey⟩
    · have h := hiff.mp hrefused
      rw [hderived, if_pos (by decide +kernel)] at h
      cases h
  · exact (hderived (.zeros 32)).trans (if_neg (by decide +kernel))
  · exact (hderived ⟨List.replicate 31 0 ++ [128], rfl⟩).trans (if_neg (by decide +kernel))
  · exact hmalformed (List.replicate 31 0) (by decide)

end KeyPair

end QuorumVault
