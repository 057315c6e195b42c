import Mathlib.Tactic
import QuorumVault.Key.SecretBox
import QuorumVault.Proofs.Cipher.Gcm
import QuorumVault.Proofs.Entropy

/-!
# Exactness of locked messages

A box is unlocked to a message iff locking the message gives the box (`unlock_eq_ok_iff`), and
`lock` does no more than draw the initialisation vector (`lock_of_draw`).  `unlock_exact` puts
together what follows: a box gives back what was locked, its tag is the only one that is accepted,
and whatever fails, fails for the same cause.
-/

namespace QuorumVault.SecretBox

/-! ### Making and opening -/

/-- Parts make a box iff the initialisation vector has its sixteen bytes. -/
theorem ofParts?_eq_ok_iff {cipherText iv associated : Bytes} {box : SecretBox} :
    ofParts? cipherText iv associated = .ok box ↔
      box.cipherText = cipherText ∧ box.iv.toList = iv ∧ box.associated = associated := by
  unfold ofParts?
  split
  · rename_i iv' hiv
    obtain rfl := Octets.toList_ofBytes? hiv
    constructor
    · intro h
      cases h
      exact ⟨rfl, rfl, rfl⟩
    · rintro ⟨rfl, h, rfl⟩
      obtain rfl := Octets.ext h
      rfl
  · rename_i hiv
    simp only [reduceCtorEq, false_iff]
    rintro ⟨-, rfl, -⟩
    simp at hiv

/-- A box is what locking makes iff its parts are those of the lock and its ciphertext is the one of
the message. -/
theorem lockWith_eq_ok_iff {key : SecretKey} {iv : Octets 16} {associated message : Bytes}
    {box : SecretBox} :
    lockWith key iv associated message = .ok box ↔
      box.iv = iv ∧ box.associated = associated ∧
        Gcm.encrypt key.octets iv associated message = some box.cipherText := by
  unfold lockWith
  split
  · rename_i c hc
    rw [hc]
    constructor
    · intro h
      cases h
      exact ⟨rfl, rfl, rfl⟩
    · rintro ⟨rfl, rfl, h⟩
      obtain rfl := Option.some.inj h
      rfl
  · rename_i hc
    simp [hc]

/-- A message is locked iff it and the associated data are not too long. -/
theorem exists_lockWith_iff (key : SecretKey) (iv : Octets 16) (associated message : Bytes) :
    (∃ box, lockWith key iv associated message = .ok box) ↔
      message.length ≤ Gcm.maxLength ∧ associated.length ≤ Gcm.maxLength := by
  rw [← Gcm.encrypt_isSome_iff key.octets iv, Option.isSome_iff_exists]
  constructor
  · rintro ⟨box, h⟩
    exact ⟨_, (lockWith_eq_ok_iff.mp h).2.2⟩
  · rintro ⟨c, hc⟩
    exact ⟨⟨c, iv, associated⟩, lockWith_eq_ok_iff.mpr ⟨rfl, rfl, hc⟩⟩

/-- **Exactness**: a box is unlocked to a message iff locking the message gives the box. -/
theorem unlock_eq_ok_iff {key : SecretKey} {box : SecretBox} {message : Bytes} :
    box.unlock key = .ok message ↔ lockWith key box.iv box.associated message = .ok box := by
  rw [lockWith_eq_ok_iff, ← Gcm.decrypt_eq_some_iff]
  unfold unlock
  split
  · rename_i m hm
    simp [hm]
  · rename_i hm
    simp [hm]

/-- Unlocking fails for one cause only. -/
theorem unlock_cases (key : SecretKey) (box : SecretBox) :
    (∃ message, box.unlock key = .ok message) ∨ box.unlock key = .error .aead := by
  unfold unlock
  split
  · exact .inl ⟨_, rfl⟩
  · exact .inr rfl

theorem lockWith_cases (key : SecretKey) (iv : Octets 16) (associated message : Bytes) :
    (∃ box, lockWith key iv associated message = .ok box) ∨
      lockWith key iv associated message = .error .aead := by
  unfold lockWith
  split
  · exact .inl ⟨_, rfl⟩
  · exact .inr rfl

/-- A ciphertext is longer than its message by the tag. -/
theorem length_of_unlock {key : SecretKey} {box : SecretBox} {message : Bytes}
    (h : box.unlock key = .ok message) : box.cipherText.length = message.length + Gcm.tagLength :=
  Gcm.length_of_encrypt (lockWith_eq_ok_iff.mp (unlock_eq_ok_iff.mp h)).2.2

/-! ### Tags -/

/-- The tag with which a ciphertext body is unlocked. -/
def tagOf (key : SecretKey) (iv : Octets 16) (associated body : Bytes) : Octets 16 :=
  let e := Gcm.engine key.octets
  Gcm.tag e (Gcm.startingBlock e iv) associated body

theorem exists_unlock_append_iff (key : SecretKey) (iv : Octets 16) {associated body : Bytes}
    (hbody : body.length ≤ Gcm.maxLength) (hassociated : associated.length ≤ Gcm.maxLength)
    (tag : Octets 16) :
    (∃ message, unlock key ⟨body ++ tag.toList, iv, associated⟩ = .ok message) ↔
      tag = tagOf key iv associated body := by
  rw [tagOf, ← Gcm.isSome_decrypt_append_iff key.octets iv hbody hassociated tag,
    Option.isSome_iff_exists]
  simp only [unlock_eq_ok_iff, lockWith_eq_ok_iff, true_and, Gcm.decrypt_eq_some_iff]

/-! ### Drawing the initialisation vector -/

theorem lock_of_draw {key : SecretKey} {associated message : Bytes} {iv : Octets 16}
    {rng rng' : Entropy} (hdraw : rng.draw? 16 = some (iv, rng')) :
    lock key associated message rng =
      ((lockWith key iv associated message).mapError .fault, rng') := by
  rw [lock, Drawing.octets_bind_of_draw _ hdraw]
  rfl

theorem lock_eq_ok_iff {key : SecretKey} {associated message : Bytes} {iv : Octets 16}
    {rng rng' : Entropy} (hdraw : rng.draw? 16 = some (iv, rng')) {box : SecretBox} :
    lock key associated message rng = (.ok box, rng') ↔
      lockWith key iv associated message = .ok box := by
  rw [lock_of_draw hdraw]
  rcases lockWith_cases key iv associated message with ⟨box', h⟩ | h
  · rw [h]
    simp [Except.mapError]
  · rw [h]
    simp [Except.mapError]

/-! ### Exactness -/

/-- **Exactness of locked messages.**  A box with a given initialisation vector is unlocked to a
message iff it is the box that `lock` makes of the message when it draws this vector.  Within the
limits of the cipher `lock` makes one, longer than the message by sixteen bytes, and unlocking it
gives the message back; and a ciphertext body is unlocked with exactly one tag.  A ciphertext
shorter than a tag is refused, and there is no other fault than that of authentication. -/
theorem unlock_exact (key : SecretKey) (iv : Octets 16) (associated : Bytes) :
    (∀ cipherText message rng rng', rng.draw? 16 = some (iv, rng') →
      (unlock key ⟨cipherText, iv, associated⟩ = .ok message ↔
        lock key associated message rng = (.ok ⟨cipherText, iv, associated⟩, rng'))) ∧
    (∀ message rng rng', message.length ≤ Gcm.maxLength → associated.length ≤ Gcm.maxLength →
      rng.draw? 16 = some (iv, rng') →
        ∃ cipherText, lock key associated message rng = (.ok ⟨cipherText, iv, associated⟩, rng') ∧
          cipherText.length = message.length + 16 ∧
            unlock key ⟨cipherText, iv, associated⟩ = .ok message) ∧
    (∀ body, body.length ≤ Gcm.maxLength → associated.length ≤ Gcm.maxLength →
      ∃ tag : Octets 16,
        (∃ message, unlock key ⟨body ++ tag.toList, iv, associated⟩ = .ok message) ∧
        ∀ tag' : Octets 16, tag' ≠ tag →
          unlock key ⟨body ++ tag'.toList, iv, associated⟩ = .error .aead) ∧
    (∀ cipherText, cipherText.length < 16 →
      unlock key ⟨cipherText, iv, associated⟩ = .error .aead) ∧
    (∀ cipherText fault, unlock key ⟨cipherText, iv, associated⟩ = .error fault → fault = .aead) ∧
    ∀ message rng rng' setback, rng.draw? 16 = some (iv, rng') →
      lock key associated message rng = (.error setback, rng') → setback = .fault .aead := by
  refine ⟨?_, ?_, ?_, ?_, ?_, ?_⟩
  · intro cipherText message rng rng' hdraw
    rw [lock_eq_ok_iff hdraw, unlock_eq_ok_iff]
  · intro message rng rng' hmessage hassociated hdraw
    obtain ⟨box, hbox⟩ := (exists_lockWith_iff key iv associated message).mpr
      ⟨hmessage, hassociated⟩
    obtain ⟨rfl, rfl, -⟩ := lockWith_eq_ok_iff.mp hbox
    have hunlock := unlock_eq_ok_iff.mpr hbox
    exact ⟨box.cipherText, (lock_eq_ok_iff hdraw).mpr hbox, length_of_unlock hunlock, hunlock⟩
  · intro body hbody hassociated
    refine ⟨tagOf key iv associated body, ?_, fun tag' hne => ?_⟩
    · exact (exists_unlock_append_iff key iv hbody hassociated _).mpr rfl
    · rcases unlock_cases key ⟨body ++ tag'.toList, iv, associated⟩ with haccepted | h
      · exact absurd ((exists_unlock_append_iff key iv hbody hassociated tag').mp haccepted) hne
      · exact h
  · intro cipherText hshort
    rcases unlock_cases key ⟨cipherText, iv, associated⟩ with ⟨message, h⟩ | h
    · have hlength := length_of_unlock h
      simp only [Gcm.tagLength] at hlength
      omega
    · exact h
  · intro cipherText fault h
    rcases unlock_cases key ⟨cipherText, iv, associated⟩ with ⟨message, h'⟩ | h'
    · rw [h'] at h
      cases h
    · rw [h'] at h
      cases h
      rfl
  · intro message rng rng' setback hdraw h
    rw [lock_of_draw hdraw] at h
    rcases lockWith_cases key iv associated message with ⟨box, h'⟩ | h'
    · rw [h'] at h
      cases h
    · rw [h'] at h
      cases h
      rfl

/-- Three bytes are locked with associated data.  They are what is unlocked, no other message would
have been locked to the same box, and the box is refused with any other tag and without its tag. -/
theorem unlock_exact_of_locked :
    let key : SecretKey := ⟨.ofFn fun i => .ofNat (i + 1)⟩
    let iv : Octets 16 := .ofFn fun i => .ofNat (16 * i)
    let rng := Entropy.ofBytes iv.toList
    ∃ body tag rng', lock key [1, 2] [7, 8, 9] rng = (.ok ⟨body ++ tag.toList, iv, [1, 2]⟩, rng') ∧
      body.length = 3 ∧ unlock key ⟨body ++ tag.toList, iv, [1, 2]⟩ = .ok [7, 8, 9] ∧
      (∀ message, lock key [1, 2] message rng = (.ok ⟨body ++ tag.toList, iv, [1, 2]⟩, rng') →
        message = [7, 8, 9]) ∧
      (∀ tag' : Octets 16, tag' ≠ tag →
        unlock key ⟨body ++ tag'.toList, iv, [1, 2]⟩ = .error .aead) ∧
      unlock key ⟨body, iv, [1, 2]⟩ = .error .aead := by
  intro key iv rng
  obtain ⟨hexact, hlock, htags, hshort, -⟩ := unlock_exact key iv [1, 2]
  obtain ⟨rng', hdraw⟩ := Entropy.exists_draw?_eq iv
  obtain ⟨cipherText, hbox, hlength, hunlock⟩ :=
    hlock [7, 8, 9] _ rng' (by decide) (by decide) hdraw
  -- the ciphertext is cut before its last sixteen bytes
  have hlength' : cipherText.length = 19 := hlength
  let body := cipherText.take 3
  let tag : Octets 16 := ⟨cipherText.drop 3, by rw [List.length_drop, hlength']⟩
  have hcut : cipherText = body ++ tag.toList := (List.take_append_drop 3 cipherText).symm
  have hbody : body.length = 3 := by
    rw [List.length_take, hlength']
    rfl
  have hmax : body.length ≤ Gcm.maxLength := by
    rw [hbody]
    decide
  obtain ⟨only, -, hrefused⟩ := htags body hmax (by decide)
  rw [hcut] at hbox hunlock
  have htag : tag = only := by
    by_contra hne
    rw [hrefused tag hne] at hunlock
    cases hunlock
  refine ⟨body, tag, rng', hbox, hbody, hunlock, fun message hmessage => ?_, ?_, ?_⟩
  · have hsame := (hexact _ message rng rng' hdraw).mpr hmessage
    rw [hunlock] at hsame
    exact (Except.ok.inj hsame).symm
  · rw [htag]
    exact hrefused
  · exact hshort body (by rw [hbody]; decide)

end QuorumVault.SecretBox
