import Mathlib.Tactic
import QuorumVault.Proofs.Bytes
import QuorumVault.Proofs.Entropy
import QuorumVault.Proofs.Key.SecretBox
import QuorumVault.Proofs.Text.Base64
import QuorumVault.Token.Format

/-!
# Exactness of the token format

A text is decoded iff it is one that `Token.encode` writes (`decode_eq_ok_iff`): the header, the
initialisation vector, the ciphertext and the authentication code are cut out of the bytes where
`signedPart` put them, and each of the four layers (Base64, code, header, locked payload) accepts
exactly what it writes.

* `headerSeconds_header`, `header_headerSeconds`: the header holds every 64-bit number of seconds;
* `verify_eq_ok_iff`: a text is verified iff it is `textOf` of the box that is handed over;
* `decode_exact`: decoding, encoding and re-encoding together.
-/

namespace QuorumVault

/-! ### Whole seconds of the calendar -/

namespace Timestamp

/-- A whole second of the calendar. -/
def IsCalendarSecond (t : Timestamp) : Prop :=
  t.nanos = 0 ∧ minSeconds ≤ t.seconds ∧ t.seconds ≤ maxSeconds

theorem ofSeconds?_eq_some_iff {seconds : ℤ} {t : Timestamp} :
    ofSeconds? seconds = some t ↔ t.seconds = seconds ∧ t.IsCalendarSecond := by
  unfold ofSeconds? IsCalendarSecond ofSeconds
  constructor
  · intro h
    split_ifs at h with hrange
    obtain rfl := Option.some.inj h
    exact ⟨rfl, rfl, hrange⟩
  · rintro ⟨rfl, hnanos, hrange⟩
    rw [if_pos hrange, ← hnanos]

end Timestamp

namespace Token

/-! ### The header -/

@[simp] theorem length_header (seconds : ℤ) : (header seconds).length = headerLength := by
  simp [header, headerLength]

/-- The header holds the seconds of a signed 64-bit number. -/
theorem headerSeconds_header {seconds : ℤ} (hlo : -0x8000000000000000 ≤ seconds)
    (hhi : seconds < 0x8000000000000000) : headerSeconds (header seconds) = seconds := by
  have hn : Bytes.toNatBE ((header seconds).drop 1) = (seconds % 0x10000000000000000).toNat := by
    rw [header, List.drop_one, List.tail_cons, Bytes.toNatBE_ofNatBE]
    omega
  rw [headerSeconds, hn]
  split_ifs with h <;> omega

/-- A header is the one of the seconds that are read from it. -/
theorem header_headerSeconds {bytes : Bytes} (hlen : bytes.length = headerLength)
    (hversion : bytes.getD 0 0 = version) : header (headerSeconds bytes) = bytes := by
  match bytes, hlen, hversion with
  | b :: rest, hlen, hversion =>
    have hrest : rest.length = 8 := by simpa [headerLength] using hlen
    obtain rfl : b = version := by simpa using hversion
    have hlt := Bytes.toNatBE_lt rest
    rw [hrest] at hlt
    have hn : (headerSeconds (version :: rest) % 0x10000000000000000).toNat =
        Bytes.toNatBE rest := by
      rw [headerSeconds, List.drop_one, List.tail_cons]
      split_ifs <;> omega
    rw [header, hn, ← hrest, Bytes.ofNatBE_toNatBE]

/-! ### Layout -/

/-- The bytes of a token. -/
def bytesOf (keys : TokenKeys) (box : SecretBox) : Bytes :=
  signedPart box ++ (Hmac.tag keys.signing.toList (signedPart box)).toList

theorem textOf_eq (keys : TokenKeys) (box : SecretBox) :
    textOf keys box = Base64.address.encode (bytesOf keys box) := rfl

theorem decode?_textOf (keys : TokenKeys) (box : SecretBox) :
    Base64.address.decode? (textOf keys box) = some (bytesOf keys box) :=
  (Base64.decode?_eq_some_iff Base64.unambiguous_address).mpr rfl

theorem length_bytesOf (keys : TokenKeys) (box : SecretBox) :
    (bytesOf keys box).length = (signedPart box).length + codeLength := by
  simp [bytesOf, codeLength]

/-- The parts of a token's bytes, cut where they were put. -/
theorem parts_of_signedPart (box : SecretBox) (hbox : box.associated.length = headerLength) :
    (signedPart box).take headerLength = box.associated ∧
      ((signedPart box).drop headerLength).take 16 = box.iv.toList ∧
      ((signedPart box).drop headerLength).drop 16 = box.cipherText := by
  have hiv := box.iv.length_toList
  rw [signedPart, List.append_assoc, ← hbox, List.take_left, List.drop_left]
  exact ⟨rfl, List.take_left' hiv, List.drop_left' hiv⟩

/-- The bytes of a token, cut in front of its authentication code. -/
theorem parts_of_bytesOf (keys : TokenKeys) (box : SecretBox) :
    (bytesOf keys box).take ((bytesOf keys box).length - codeLength) = signedPart box ∧
      (bytesOf keys box).drop ((bytesOf keys box).length - codeLength) =
        (Hmac.tag keys.signing.toList (signedPart box)).toList := by
  rw [length_bytesOf, Nat.add_sub_cancel]
  exact ⟨List.take_left, List.drop_left⟩

/-- The bytes of a token with a header begin with the version. -/
theorem getD_bytesOf {keys : TokenKeys} {box : SecretBox} {seconds : ℤ}
    (hbox : box.associated = header seconds) : (bytesOf keys box).getD 0 0 = version := by
  rw [bytesOf, signedPart, hbox]
  rfl

/-! ### Verifying -/

/-- The header of a text that is long enough and has the right version is written again for the
seconds that are read from it. -/
theorem header_of_version {raw : Bytes} (hlen : minLength ≤ raw.length)
    (hversion : raw.getD 0 0 = version) :
    let body := raw.take (raw.length - codeLength)
    header (headerSeconds (body.take headerLength)) = body.take headerLength := by
  intro body
  simp only [minLength, headerLength, codeLength, Gcm.tagLength] at hlen
  have hbody : body.length = raw.length - codeLength := by
    rw [List.length_take]; omega
  refine header_headerSeconds ?_ ?_
  · rw [List.length_take, hbody]
    simp only [headerLength, codeLength]
    omega
  · have hpos : 0 < raw.length - codeLength := by
      rw [codeLength]; omega
    rw [← hversion, List.getD_eq_getElem?_getD, List.getD_eq_getElem?_getD,
      List.getElem?_take_of_lt (by decide), List.getElem?_take_of_lt hpos]

/-- The text of a box whose header belongs to a time of issue is verified, if the box is long enough
for its tag. -/
theorem verify_textOf {keys : TokenKeys} {now issuedAt : Timestamp} {maxAge : Option Duration}
    {box : SecretBox} (hcal : issuedAt.IsCalendarSecond)
    (hage : checkAge issuedAt now maxAge = .ok ())
    (hheader : box.associated = header issuedAt.seconds)
    (hcipher : Gcm.tagLength ≤ box.cipherText.length) :
    verify keys (textOf keys box) now maxAge = .ok ⟨issuedAt, box⟩ := by
  have hlength : (signedPart box).length = headerLength + 16 + box.cipherText.length := by
    simp [signedPart, hheader, Nat.add_assoc]
  have hseconds : headerSeconds (header issuedAt.seconds) = issuedAt.seconds := by
    have hlo := hcal.2.1
    have hhi := hcal.2.2
    -- the calendar is well within the seconds that eight bytes can hold
    simp only [Timestamp.minSeconds, Timestamp.maxSeconds] at hlo hhi
    exact headerSeconds_header (by omega) (by omega)
  obtain ⟨htake, hdrop⟩ := parts_of_bytesOf keys box
  obtain ⟨h1, h2, h3⟩ := parts_of_signedPart box (by rw [hheader, length_header])
  unfold verify
  rw [decode?_textOf]
  dsimp only
  -- the checks in their order: length, version, authentication code, time, age
  rw [if_neg (by rw [length_bytesOf, hlength, minLength]; omega),
    if_neg (not_not.mpr (getD_bytesOf hheader)), htake, hdrop, if_neg (not_not.mpr rfl), h1, h2,
    h3, hheader, hseconds, Timestamp.ofSeconds?_eq_some_iff.mpr ⟨rfl, hcal⟩]
  dsimp only
  rw [hage]
  dsimp only
  rw [SecretBox.ofParts?_eq_ok_iff.mpr ⟨rfl, rfl, hheader⟩]

/-- A text that is verified is the one of the box that is handed over, whose header belongs to the
time of issue. -/
theorem textOf_of_verify {keys : TokenKeys} {text : String} {now issuedAt : Timestamp}
    {maxAge : Option Duration} {box : SecretBox}
    (h : verify keys text now maxAge = .ok ⟨issuedAt, box⟩) :
    issuedAt.IsCalendarSecond ∧ checkAge issuedAt now maxAge = .ok () ∧
      box.associated = header issuedAt.seconds ∧ Gcm.tagLength ≤ box.cipherText.length ∧
      text = textOf keys box := by
  unfold verify at h
  split at h
  · cases h
  rename_i raw hraw
  have htext := (Base64.decode?_eq_some_iff Base64.unambiguous_address).mp hraw
  -- of each check only the branch in which it is passed is left
  split_ifs at h with hlen hversion
  dsimp only at h
  split_ifs at h with htag
  split at h
  · cases h
  rename_i issued hissued
  split at h
  · cases h
  rename_i hage
  split at h
  rotate_left
  · cases h
  rename_i box' hbox
  obtain ⟨rfl, rfl⟩ := Verified.mk.inj (Except.ok.inj h)
  obtain ⟨hcipher, hiv, hassociated⟩ := SecretBox.ofParts?_eq_ok_iff.mp hbox
  obtain ⟨hseconds, hcal⟩ := Timestamp.ofSeconds?_eq_some_iff.mp hissued
  have hheader := header_of_version (Nat.not_lt.mp hlen) (not_not.mp hversion)
  have hbody : (raw.take (raw.length - codeLength)).length = raw.length - codeLength := by
    rw [List.length_take]; omega
  -- the parts of the box, put together again, are the text from which they were cut
  have hsigned : signedPart box' = raw.take (raw.length - codeLength) := by
    rw [signedPart, hassociated, hiv, hcipher, List.append_assoc, List.take_append_drop,
      List.take_append_drop]
  have hbytes : bytesOf keys box' = raw := by
    rw [bytesOf, hsigned, not_not.mp htag, List.take_append_drop]
  refine ⟨hcal, hage, ?_, ?_, ?_⟩
  · rw [hassociated, hseconds]
    exact hheader.symm
  · rw [hcipher, List.length_drop, List.length_drop, hbody]
    simp only [minLength, headerLength, codeLength, Gcm.tagLength] at hlen ⊢
    omega
  · rw [textOf_eq, hbytes]
    exact htext

/-- A text is verified iff it is the text of the box that is handed over, whose header belongs to
the time of issue. -/
theorem verify_eq_ok_iff {keys : TokenKeys} {text : String} {now : Timestamp}
    {maxAge : Option Duration} {issuedAt : Timestamp} {box : SecretBox} :
    verify keys text now maxAge = .ok ⟨issuedAt, box⟩ ↔
      issuedAt.IsCalendarSecond ∧ checkAge issuedAt now maxAge = .ok () ∧
        box.associated = header issuedAt.seconds ∧ Gcm.tagLength ≤ box.cipherText.length ∧
        text = textOf keys box := by
  constructor
  · exact textOf_of_verify
  · rintro ⟨hcal, hage, hheader, hcipher, rfl⟩
    exact verify_textOf hcal hage hheader hcipher

/-! ### Writing -/

/-- The text of a payload is the one of its box, whose header belongs to the time of issue. -/
theorem encodeWith_eq_ok_iff {keys : TokenKeys} {iv : Octets 16} {payload : Bytes}
    {stamp : Timestamp} {text : String} :
    encodeWith keys iv payload stamp = .ok text ↔
      ∃ box, SecretBox.lockWith keys.encryption iv (header stamp.seconds) payload = .ok box ∧
        textOf keys box = text := by
  unfold encodeWith
  split
  · rename_i box hbox
    rw [hbox]
    constructor
    · intro h
      exact ⟨box, rfl, Except.ok.inj h⟩
    · rintro ⟨box', h, rfl⟩
      rw [Except.ok.inj h]
  · rename_i hbox
    simp [hbox]

/-- Only the whole second of the time of issue is written. -/
theorem encodeWith_ofSeconds (keys : TokenKeys) (iv : Octets 16) (payload : Bytes)
    (stamp : Timestamp) :
    encodeWith keys iv payload (.ofSeconds stamp.seconds) = encodeWith keys iv payload stamp := rfl

/-- Encoding draws the initialisation vector and writes the text that belongs to it. -/
theorem encode_eq_ok_iff {keys : TokenKeys} {payload : Bytes} {stamp : Timestamp}
    {rng rng' : Entropy} {text : String} :
    encode keys payload stamp rng = (.ok text, rng') ↔
      ∃ iv, rng.draw? 16 = some (iv, rng') ∧ encodeWith keys iv payload stamp = .ok text := by
  unfold encode
  simp only [Drawing.bind_eq_ok_iff, Drawing.octets_eq_ok_iff, Drawing.ofExcept_eq_ok_iff]
  constructor
  · rintro ⟨iv, _, hdraw, htext, rfl⟩
    exact ⟨iv, hdraw, htext⟩
  · rintro ⟨iv, hdraw, htext⟩
    exact ⟨iv, rng', hdraw, htext, rfl⟩

/-- `encode` writes a text for a payload when it draws an initialisation vector. -/
def Writes (keys : TokenKeys) (payload : Bytes) (stamp : Timestamp) (iv : Octets 16)
    (text : String) : Prop :=
  ∃ rng rng', rng.draw? 16 = some (iv, rng') ∧ encode keys payload stamp rng = (.ok text, rng')

theorem writes_iff {keys : TokenKeys} {payload : Bytes} {stamp : Timestamp} {iv : Octets 16}
    {text : String} :
    Writes keys payload stamp iv text ↔ encodeWith keys iv payload stamp = .ok text := by
  constructor
  · rintro ⟨rng, rng', hdraw, h⟩
    obtain ⟨iv', hdraw', htext⟩ := encode_eq_ok_iff.mp h
    rw [hdraw] at hdraw'
    cases hdraw'
    exact htext
  · intro h
    obtain ⟨rng', hdraw⟩ := Entropy.exists_draw?_eq iv
    exact ⟨_, rng', hdraw, encode_eq_ok_iff.mpr ⟨iv, hdraw, h⟩⟩

/-- A payload is written iff the cipher takes a message of its length. -/
theorem exists_writes_iff {keys : TokenKeys} {payload : Bytes} {stamp : Timestamp}
    {iv : Octets 16} :
    (∃ text, Writes keys payload stamp iv text) ↔ payload.length ≤ Gcm.maxLength := by
  have hheader : (header stamp.seconds).length ≤ Gcm.maxLength := by
    rw [length_header]; decide
  rw [← and_iff_left (a := payload.length ≤ Gcm.maxLength) hheader,
    ← SecretBox.exists_lockWith_iff keys.encryption iv]
  simp only [writes_iff, encodeWith_eq_ok_iff]
  constructor
  · rintro ⟨_, box, hbox, -⟩
    exact ⟨box, hbox⟩
  · rintro ⟨box, hbox⟩
    exact ⟨_, box, hbox, rfl⟩

/-! ### Decoding -/

/-- A text is decoded iff it is written for the payload, at the time of issue, with some
initialisation vector. -/
theorem decode_eq_ok_iff {keys : TokenKeys} {text : String} {now : Timestamp}
    {maxAge : Option Duration} {issuedAt : Timestamp} {payload : Bytes} :
    decode keys text now maxAge = .ok ⟨issuedAt, payload⟩ ↔
      issuedAt.IsCalendarSecond ∧ checkAge issuedAt now maxAge = .ok () ∧
        ∃ iv, encodeWith keys iv payload issuedAt = .ok text := by
  constructor
  · intro h
    unfold decode at h
    split at h
    · cases h
    rename_i verified hverified
    split at h
    · rename_i message hmessage
      obtain ⟨rfl, rfl⟩ := Decoded.mk.inj (Except.ok.inj h)
      obtain ⟨hcal, hage, hheader, -, rfl⟩ := verify_eq_ok_iff.mp hverified
      have hlock := SecretBox.unlock_eq_ok_iff.mp hmessage
      rw [hheader] at hlock
      exact ⟨hcal, hage, verified.box.iv, encodeWith_eq_ok_iff.mpr ⟨_, hlock, rfl⟩⟩
    · cases h
  · rintro ⟨hcal, hage, iv, h⟩
    obtain ⟨box, hlock, rfl⟩ := encodeWith_eq_ok_iff.mp h
    obtain ⟨rfl, hheader, hcipher⟩ := SecretBox.lockWith_eq_ok_iff.mp hlock
    have hlength := Gcm.length_of_encrypt hcipher
    have hverify : verify keys (textOf keys box) now maxAge = .ok ⟨issuedAt, box⟩ :=
      verify_eq_ok_iff.mpr ⟨hcal, hage, hheader, by omega, rfl⟩
    rw [← hheader] at hlock
    unfold decode
    rw [hverify]
    dsimp only
    rw [SecretBox.unlock_eq_ok_iff.mpr hlock]

theorem exists_verify_of_decode {keys : TokenKeys} {text : String} {now : Timestamp}
    {maxAge : Option Duration} {token : Decoded} (h : decode keys text now maxAge = .ok token) :
    ∃ verified, verify keys text now maxAge = .ok verified := by
  unfold decode at h
  split at h
  · cases h
  · rename_i verified hverified
    exact ⟨verified, hverified⟩

/-- What is written at a time of issue is decoded as issued at its whole second. -/
theorem decode_of_writes {keys : TokenKeys} {payload : Bytes} {stamp now : Timestamp}
    {maxAge : Option Duration} {iv : Octets 16} {text : String}
    (h : Writes keys payload stamp iv text)
    (hcal : (Timestamp.ofSeconds stamp.seconds).IsCalendarSecond)
    (hage : checkAge stamp now maxAge = .ok ()) :
    decode keys text now maxAge = .ok ⟨.ofSeconds stamp.seconds, payload⟩ := by
  refine decode_eq_ok_iff.mpr ⟨hcal, hage, iv, ?_⟩
  rw [encodeWith_ofSeconds]
  exact writes_iff.mp h

/-- **Exactness of the format.**  A text is decoded iff `encode` writes it for the payload at the
decoded time of issue, which is a whole second of the calendar with an allowed age.  Hence decoding
undoes encoding, at the whole second of whatever time of issue; every payload that the cipher takes
has a text for each initialisation vector; and different texts carry different bytes. -/
theorem decode_exact (keys : TokenKeys) (now : Timestamp) (maxAge : Option Duration) :
    (∀ text issuedAt payload, decode keys text now maxAge = .ok ⟨issuedAt, payload⟩ ↔
      issuedAt.IsCalendarSecond ∧ checkAge issuedAt now maxAge = .ok () ∧
        ∃ iv, Writes keys payload issuedAt iv text) ∧
    (∀ payload stamp iv text, Writes keys payload stamp iv text →
      (Timestamp.ofSeconds stamp.seconds).IsCalendarSecond → checkAge stamp now maxAge = .ok () →
        decode keys text now maxAge = .ok ⟨.ofSeconds stamp.seconds, payload⟩) ∧
    (∀ payload stamp iv,
      (∃ text, Writes keys payload stamp iv text) ↔ payload.length ≤ Gcm.maxLength) ∧
    ∀ text text' raw, Base64.address.decode? text = some raw →
      Base64.address.decode? text' = some raw → text = text' := by
  refine ⟨fun text issuedAt payload => ?_, fun _ _ _ _ => decode_of_writes,
    fun _ _ _ => exists_writes_iff, fun text text' raw h h' => ?_⟩
  · simp only [writes_iff]
    exact decode_eq_ok_iff
  · rw [Base64.decode?_eq_some_iff Base64.unambiguous_address] at h h'
    rw [h, h']

/-- The empty payload, written half a second before 1970 began. -/
theorem decode_exact_before_epoch :
    ∃ text, Writes ⟨.zeros 32, ⟨.zeros 32⟩⟩ [] ⟨-1, 500000000⟩ (.zeros 16) text ∧
      decode ⟨.zeros 32, ⟨.zeros 32⟩⟩ text ⟨0, 0⟩ none = .ok ⟨.ofSeconds (-1), []⟩ := by
  obtain ⟨-, hdecode, hwrites, -⟩ := decode_exact ⟨.zeros 32, ⟨.zeros 32⟩⟩ ⟨0, 0⟩ none
  obtain ⟨text, htext⟩ := (hwrites [] ⟨-1, 500000000⟩ (.zeros 16)).mpr (by decide)
  have hcal : (Timestamp.ofSeconds (-1)).IsCalendarSecond := ⟨rfl, by decide, by decide⟩
  exact ⟨text, htext, hdecode _ _ _ _ htext hcal rfl⟩

end Token

end QuorumVault
