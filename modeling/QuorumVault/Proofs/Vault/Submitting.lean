import Mathlib.Tactic
import QuorumVault.Proofs.Vault.Collecting
import QuorumVault.Proofs.Vault.Unsealing

/-!
# What an envelope does to the pending shares

In a session every envelope gets an answer, whatever its bytes are.  It brings a share
(`Vault.Brings`) if each of its layers can be opened and what is inside is an index that may have
been dealt, followed by at least one byte.  Then this share is put among the pending ones, and
otherwise nothing but the journal changes.

A shareholder's envelope brings the share for which it was packed, if that share has an index and
bytes that may have been dealt, and nothing if it has not (`Vault.brings_iff_of_isPacked`).  No
assumption on the exchange of keys is needed for this, since both sides of an exchange agree.

The main result is `Vault.submit_exact`.
-/

namespace QuorumVault

/-! ### The layers of an envelope -/

namespace Envelope

variable {suite : CipherSuite} {pair : KeyPair} {e : Envelope} {message : Bytes}

/-- An envelope holds a message for the owner of a key pair: its encapsulation gives a key, its
initialisation vector has sixteen bytes, and its ciphertext is decrypted under the label of shares.
-/
def Holds (suite : CipherSuite) (pair : KeyPair) (e : Envelope) (message : Bytes) : Prop :=
  ∃ (key : SecretKey) (iv : Octets 16), pair.decapsulate suite e.encapsulation = .ok key ∧
    e.iv = iv.toList ∧ Gcm.decrypt key.octets iv shareLabel e.cipherText = some message

theorem unpack_eq_ok_iff_holds :
    e.unpack suite pair shareLabel = .ok message ↔ e.Holds suite pair message := by
  have hbind : e.unpack suite pair shareLabel = .ok message ↔
      ∃ key box, pair.decapsulate suite e.encapsulation = .ok key ∧ e.box? shareLabel = .ok box ∧
        box.unlock key = .ok message := by
    unfold unpack
    cases pair.decapsulate suite e.encapsulation with
    | error fault => simp [bind, Except.bind]
    | ok key =>
      cases e.box? shareLabel with
      | error fault => simp [bind, Except.bind]
      | ok box => simp [bind, Except.bind]
  rw [hbind]
  constructor
  · rintro ⟨key, box, hkey, hbox, hunlock⟩
    obtain ⟨hcipher, hiv, hlabel⟩ := SecretBox.ofParts?_eq_ok_iff.mp hbox
    have hlock := SecretBox.unlock_eq_ok_iff.mp hunlock
    obtain ⟨-, -, hencrypt⟩ := SecretBox.lockWith_eq_ok_iff.mp hlock
    rw [hcipher, hlabel] at hencrypt
    exact ⟨key, box.iv, hkey, hiv.symm, Gcm.decrypt_eq_some_iff.mpr hencrypt⟩
  · rintro ⟨key, iv, hkey, hiv, hdecrypt⟩
    have hbox : e.box? shareLabel = .ok ⟨e.cipherText, iv, shareLabel⟩ :=
      SecretBox.ofParts?_eq_ok_iff.mpr ⟨rfl, hiv.symm, rfl⟩
    have hlock : SecretBox.lockWith key iv shareLabel message =
        .ok ⟨e.cipherText, iv, shareLabel⟩ :=
      SecretBox.lockWith_eq_ok_iff.mpr ⟨rfl, rfl, Gcm.decrypt_eq_some_iff.mp hdecrypt⟩
    exact ⟨key, _, hkey, hbox, SecretBox.unlock_eq_ok_iff.mpr hlock⟩

end Envelope

namespace Vault

variable {ι : Type} {β : ι → Type} {v : Vault β} {session : KeyPair} {envelope : Envelope}
  {share : Share}

/-! ### What an envelope brings -/

/-- An envelope brings a share: it holds the index of the share, which may have been dealt, followed
by its bytes, of which there is at least one. -/
structure Brings (v : Vault β) (session : KeyPair) (envelope : Envelope) (share : Share) :
    Prop where
  holds : envelope.Holds v.settings.suite session (share.index :: share.bytes)
  bytes_ne : share.bytes ≠ []
  one_le : 1 ≤ share.index
  le_shareCount : share.index ≤ v.settings.shareCount

theorem brings_iff :
    v.Brings session envelope share ↔
      envelope.unpackShare v.settings.suite session = .ok share ∧
        share.index ≤ v.settings.shareCount := by
  rw [Envelope.unpackShare_eq_ok_iff, Envelope.unpack_eq_ok_iff_holds]
  have hpos : 1 ≤ share.index ↔ share.index ≠ 0 := by
    rw [UInt8.le_iff_toNat_le, ne_eq, ← UInt8.toNat_inj]
    exact Nat.one_le_iff_ne_zero
  constructor
  · intro h
    exact ⟨⟨h.holds, hpos.mp h.one_le, h.bytes_ne⟩, h.le_shareCount⟩
  · rintro ⟨⟨hholds, hindex, hbytes⟩, hle⟩
    exact ⟨hholds, hbytes, hpos.mpr hindex, hle⟩

/-- An envelope brings no more than one share. -/
theorem Brings.unique {share' : Share} (h : v.Brings session envelope share)
    (h' : v.Brings session envelope share') : share' = share := by
  have hopen := (brings_iff.mp h).1
  have hopen' := (brings_iff.mp h').1
  rw [hopen'] at hopen
  exact Except.ok.inj hopen

/-- A packed share is brought if it may have been dealt, and no other share is. -/
theorem brings_iff_of_isPacked {found : Share}
    (hpacked : IsPacked v.settings.suite session.publicKey share envelope) :
    v.Brings session envelope found ↔
      found = share ∧ share.bytes ≠ [] ∧ 1 ≤ share.index ∧ share.index ≤ v.settings.shareCount := by
  obtain ⟨rng, rng', hpack⟩ := hpacked
  have hunpack := Envelope.unpack_of_pack hpack
  constructor
  · intro h
    have hfound := Envelope.unpack_eq_ok_iff_holds.mpr h.holds
    rw [hunpack] at hfound
    obtain ⟨hindex, hbytes⟩ := List.cons.inj (Except.ok.inj hfound)
    obtain rfl : found = share := by
      cases found; cases share; cases hindex; cases hbytes; rfl
    exact ⟨rfl, h.bytes_ne, h.one_le, h.le_shareCount⟩
  · rintro ⟨rfl, hbytes, hpos, hle⟩
    exact ⟨Envelope.unpack_eq_ok_iff_holds.mp hunpack, hbytes, hpos, hle⟩

/-- What may not have been dealt is not brought, although it was packed. -/
theorem not_brings_of_isPacked
    (hpacked : IsPacked v.settings.suite session.publicKey share envelope)
    (hundealt : share.bytes = [] ∨ share.index = 0 ∨ v.settings.shareCount < share.index)
    (found : Share) : ¬v.Brings session envelope found := by
  rw [brings_iff_of_isPacked hpacked]
  rintro ⟨-, hbytes, hpos, hle⟩
  rcases hundealt with hnil | hzero | hgreat
  · exact hbytes hnil
  · rw [hzero] at hpos
    exact absurd hpos (by decide)
  · exact absurd hle (UInt8.not_le.mpr hgreat)

/-! ### Submitting it -/

theorem submit_of_brings (stamp : Stamp) (hphase : v.phase = .unsealing session)
    (h : v.Brings session envelope share) :
    v.submit stamp envelope = v.keepShare stamp share := by
  obtain ⟨hopen, hindex⟩ := brings_iff.mp h
  exact submit_of_unpackShare hphase hopen hindex

/-- An envelope that brings nothing is refused, and leaves its mark on the journal only. -/
theorem submit_of_forall_not_brings (stamp : Stamp) (hphase : v.phase = .unsealing session)
    (h : ∀ share, ¬v.Brings session envelope share) :
    (∃ answer, (v.submit stamp envelope).1 = .ok (.failure v.pending answer)) ∧
      SameButJournal v (v.submit stamp envelope).2 := by
  -- the envelope cannot be opened, or its share has an index that was not dealt
  rcases submit_of_unsealing stamp envelope hphase with
    ⟨fault, -, hsubmit⟩ | ⟨found, -, -, hsubmit⟩ | ⟨found, hopen, hindex, -⟩
  · rw [hsubmit]
    exact ⟨⟨_, rfl⟩, .log _ v⟩
  · rw [hsubmit]
    exact ⟨⟨_, rfl⟩, .log _ v⟩
  · exact absurd (brings_iff.mpr ⟨hopen, hindex⟩) (h found)

/-- **Exactness of submitting.**  In a session every envelope is answered.  The answer is a success
iff the envelope brings a share.  Then the bytes of this share stand at its index among the pending
shares, which are otherwise as before, and the answer counts them; if the envelope brings no share,
nothing but the journal changes, and the answer counts the shares that were pending before.

In particular a share that a shareholder has packed for the session key is kept with exactly its
index and bytes if it may have been dealt, and it is refused if its index is zero or too great or if
it has no bytes. -/
theorem submit_exact (hphase : v.phase = .unsealing session) :
    (∀ stamp envelope, ∃ status, (v.submit stamp envelope).1 = .ok status ∧
      (status.success = true ↔ ∃ share, v.Brings session envelope share) ∧
      (∀ share, v.Brings session envelope share →
        let shares := (v.submit stamp envelope).2.shares
        shares.get? share.index = some share.bytes ∧
        (∀ index ≠ share.index, shares.get? index = v.shares.get? index) ∧
        SameButJournal { v with shares := shares } (v.submit stamp envelope).2 ∧
        status.shareCount = shares.size) ∧
      ((∀ share, ¬v.Brings session envelope share) →
        SameButJournal v (v.submit stamp envelope).2 ∧ status.shareCount = v.shares.size)) ∧
    ∀ stamp envelope key share, v.sessionKey = .ok key →
      IsPacked v.settings.suite key share envelope →
      (share.bytes ≠ [] → 1 ≤ share.index → share.index ≤ v.settings.shareCount →
        (v.submit stamp envelope).1 = .ok (.ok (v.submit stamp envelope).2.shares.size) ∧
        (v.submit stamp envelope).2.shares = v.shares.insert share) ∧
      (share.bytes = [] ∨ share.index = 0 ∨ v.settings.shareCount < share.index →
        (∃ answer, (v.submit stamp envelope).1 = .ok (.failure v.shares.size answer)) ∧
        SameButJournal v (v.submit stamp envelope).2) := by
  constructor
  · intro stamp envelope
    by_cases hbrings : ∃ share, v.Brings session envelope share
    · obtain ⟨share, h⟩ := hbrings
      rw [submit_of_brings stamp hphase h]
      refine ⟨.ok (v.shares.insert share).size, rfl, ⟨fun _ => ⟨share, h⟩, fun _ => rfl⟩, ?_, ?_⟩
      · intro share' h'
        obtain rfl := h.unique h'
        refine ⟨ShareMap.get?_insert_self v.shares share', ?_, rfl, rfl⟩
        intro index hindex
        exact ShareMap.get?_insert_of_ne v.shares hindex
      · intro hnone
        exact absurd h (hnone share)
    · have hnone := not_exists.mp hbrings
      obtain ⟨⟨answer, hanswer⟩, hsame⟩ := submit_of_forall_not_brings stamp hphase hnone
      refine ⟨_, hanswer, ⟨nofun, fun h => absurd h hbrings⟩, ?_, ?_⟩
      · intro share h
        exact absurd h (hnone share)
      · intro _
        exact ⟨hsame, rfl⟩
  · intro stamp envelope key share hkey hpacked
    obtain rfl : session.publicKey = key := by
      rw [sessionKey, hphase] at hkey
      exact Except.ok.inj hkey
    constructor
    · intro hbytes hpos hle
      have h : v.Brings session envelope share :=
        (brings_iff_of_isPacked hpacked).mpr ⟨rfl, hbytes, hpos, hle⟩
      rw [submit_of_brings stamp hphase h]
      exact ⟨rfl, rfl⟩
    · intro hundealt
      exact submit_of_forall_not_brings stamp hphase (not_brings_of_isPacked hpacked hundealt)

/-- Of three shares that are dealt the third one is kept, and a fourth one is refused. -/
theorem submit_exact_of_two_packed :
    ∃ (third fourth : Envelope) (v : Vault fun _ : Unit => Unit),
      (v.submit .blank third).1 = .ok (.ok 1) ∧
      (v.submit .blank third).2.shares.get? 3 = some [7] ∧
      ∃ answer, (v.submit .blank fourth).1 = .ok (.failure 0 answer) := by
  let v : Vault fun _ : Unit => Unit := (World.starting _).vault
  have hphase : v.phase = .unsealing ⟨.zeros 32⟩ := rfl
  have hpacked (share : Share) (hlength : share.toBytes.length ≤ Gcm.maxLength) :
      ∃ envelope, IsPacked v.settings.suite (KeyPair.mk (.zeros 32)).publicKey share envelope :=
    exists_isPacked _ (.zeros 32) (by decide +kernel) hlength
  obtain ⟨third, hthird⟩ := hpacked ⟨3, [7]⟩ (by decide)
  obtain ⟨fourth, hfourth⟩ := hpacked ⟨4, [7]⟩ (by decide)
  obtain ⟨-, h⟩ := submit_exact hphase
  obtain ⟨hkept, -⟩ := h .blank third _ ⟨3, [7]⟩ rfl hthird
  obtain ⟨-, hrefused⟩ := h .blank fourth _ ⟨4, [7]⟩ rfl hfourth
  obtain ⟨hanswer, hshares⟩ := hkept (by decide) (by decide) (by decide)
  obtain ⟨hanswer', -⟩ := hrefused (.inr (.inr (by decide)))
  refine ⟨third, fourth, v, ?_, ?_, ?_⟩
  · rw [hanswer, hshares]
    rfl
  · rw [hshares]
    rfl
  · exact hanswer'

end Vault

end QuorumVault
