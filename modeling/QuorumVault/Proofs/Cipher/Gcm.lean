import Mathlib.Tactic
import QuorumVault.Cipher.Gcm

/-!
# Exactness of authenticated encryption

`Gcm.decrypt_eq_some_iff`: a ciphertext is opened to a message iff it is the one that `Gcm.encrypt`
makes of that message, so for every key, initialisation vector and associated data decryption is the
partial inverse of encryption.

The key stream depends on a message only through its length, so masking twice with it gives the
message back (`mask_mask`); the tag is recomputed over the same body in both directions, so that a
body has exactly one (`isSome_decrypt_append_iff`).
-/

namespace QuorumVault

namespace Bytes

theorem xor_xor_cancel {a k : Bytes} (h : a.length ≤ k.length) : xor (xor a k) k = a := by
  induction a generalizing k with
  | nil => rfl
  | cons x a ih =>
    cases k with
    | nil => simp at h
    | cons y k =>
      have hxy : x ^^^ y ^^^ y = x := by rw [UInt8.xor_assoc, UInt8.xor_self, UInt8.xor_zero]
      have := ih (k := k) (by simpa using h)
      simp only [xor, List.zipWith_cons_cons, hxy] at this ⊢
      rw [this]

end Bytes

namespace Gcm

/-! ### The key stream -/

theorem le_length_keystream (e : Engine) (start : Aes.Block) (n : ℕ) :
    n ≤ (keystream e start n).length := by
  have hsum : (keystream e start n).length = (n + 15) / 16 * 16 := by
    simp [keystream, List.length_flatMap]
  rw [hsum]
  omega

@[simp] theorem length_mask (e : Engine) (start : Aes.Block) (message : Bytes) :
    (mask e start message).length = message.length := by
  have := le_length_keystream e start message.length
  simp only [mask, Bytes.xor, List.length_zipWith]
  omega

/-- Masking twice gives the message back. -/
theorem mask_mask (e : Engine) (start : Aes.Block) (message : Bytes) :
    mask e start (mask e start message) = message := by
  -- the second key stream is as long as the first, since masking keeps the length
  have hlen := length_mask e start message
  conv_lhs => rw [mask, hlen, mask]
  exact Bytes.xor_xor_cancel (le_length_keystream e start message.length)

/-! ### Messages -/

/-- A message is encrypted iff it and the associated data are not too long. -/
theorem encrypt_isSome_iff (key : Octets 32) (iv : Octets 16) (associated message : Bytes) :
    (encrypt key iv associated message).isSome ↔
      message.length ≤ maxLength ∧ associated.length ≤ maxLength := by
  unfold encrypt
  split_ifs with h <;> simp [h]

/-- The ciphertext is longer than the message by a tag. -/
theorem length_of_encrypt {key : Octets 32} {iv : Octets 16} {associated message c : Bytes}
    (h : encrypt key iv associated message = some c) : c.length = message.length + tagLength := by
  unfold encrypt at h
  split_ifs at h
  obtain rfl := Option.some.inj h
  simp [tagLength]

theorem decrypt_of_encrypt {key : Octets 32} {iv : Octets 16} {associated message c : Bytes}
    (h : encrypt key iv associated message = some c) :
    decrypt key iv associated c = some message := by
  have hlen := length_of_encrypt h
  unfold encrypt at h
  split_ifs at h with hmax
  obtain rfl := Option.some.inj h
  -- `decrypt` cuts the ciphertext where `encrypt` joined body and tag
  have hsize : message.length + tagLength - tagLength = message.length := by omega
  unfold decrypt
  rw [hlen, hsize, if_pos ⟨by omega, hmax⟩]
  simp only [List.take_left' (length_mask _ _ message), List.drop_left' (length_mask _ _ message),
    if_true, mask_mask]

theorem encrypt_of_decrypt {key : Octets 32} {iv : Octets 16} {associated message c : Bytes}
    (h : decrypt key iv associated c = some message) :
    encrypt key iv associated message = some c := by
  unfold decrypt at h
  simp only at h
  split_ifs at h with hmax htag
  obtain rfl := Option.some.inj h
  obtain ⟨htagLength, hsize, hassociated⟩ := hmax
  have hbody : (c.take (c.length - tagLength)).length = c.length - tagLength := by
    rw [List.length_take]; omega
  -- encrypting masks the body again, and the tag is the one that has been compared
  unfold encrypt
  rw [length_mask, hbody, if_pos ⟨hsize, hassociated⟩]
  simp only [mask_mask, htag, List.take_append_drop]

/-- **Exactness**: a ciphertext is opened to a message iff it is the one made of that message. -/
theorem decrypt_eq_some_iff {key : Octets 32} {iv : Octets 16} {associated message c : Bytes} :
    decrypt key iv associated c = some message ↔ encrypt key iv associated message = some c :=
  ⟨encrypt_of_decrypt, decrypt_of_encrypt⟩

/-- Under a body exactly one tag is accepted. -/
theorem isSome_decrypt_append_iff (key : Octets 32) (iv : Octets 16) {associated body : Bytes}
    (hbody : body.length ≤ maxLength) (hassociated : associated.length ≤ maxLength)
    (t : Octets 16) :
    (decrypt key iv associated (body ++ t.toList)).isSome ↔
      t = tag (engine key) (startingBlock (engine key) iv) associated body := by
  have hlength : (body ++ t.toList).length = body.length + tagLength := by simp [tagLength]
  have hsize : body.length + tagLength - tagLength = body.length := by omega
  unfold decrypt
  rw [hlength, hsize, if_pos ⟨by omega, hbody, hassociated⟩]
  simp only [List.take_left, List.drop_left]
  split_ifs with htag
  · simp [Octets.ext htag]
  · simp only [Option.isSome_none, Bool.false_eq_true, false_iff]
    rintro rfl
    exact htag rfl

end Gcm

end QuorumVault
