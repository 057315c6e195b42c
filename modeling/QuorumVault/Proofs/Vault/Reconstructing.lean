import Mathlib.Tactic
import QuorumVault.Proofs.Sharing.Combining
import QuorumVault.Proofs.Vault.Collecting
import QuorumVault.Proofs.Vault.History
import QuorumVault.Proofs.Vault.Lifecycle

/-!
# What an attempt to reconstruct the master key comes to

The pending shares of every run have indices that may have been dealt and are not empty
(`Vault.Sound`), and the settings ask for at least two of them.  Of the reasons for which shares do
not combine this leaves one, that they differ in length (`Sharing.combine_eq_error_of_enough`); and
every root secret has a master key, whatever the derivation.  So what an attempt comes to is decided
by the number of the pending shares and by their lengths.  If it succeeds, the master key is the one
of the secret that they determine (`Sharing.IsSecretOf`).

The main result is `Vault.reconstruct_exact`.
-/

namespace QuorumVault

/-! ### The secret of shares -/

/-- The shares of a map have one length. -/
def ShareMap.EqualLengths (m : ShareMap) : Prop :=
  ∀ share ∈ m.shares, ∀ share' ∈ m.shares, share.bytes.length = share'.bytes.length

namespace Sharing

variable {threshold : UInt8} {m : ShareMap} {secret : Bytes}

/-- A secret is that of a map of shares: it is as long as each of them, and at each place it is the
value at zero of the polynomial through all of them. -/
structure IsSecretOf (m : ShareMap) (secret : Bytes) : Prop where
  length_eq : ∀ share ∈ m.shares, secret.length = share.bytes.length
  eval_eq : ∀ place < secret.length, (∃! f, IsThrough m place f) ∧
    ∀ f, IsThrough m place f → Gf256.ofByte (secret.getD place 0) = f.eval 0

theorem isSecretOf_of_combine (h : combine threshold m = .ok secret) : IsSecretOf m secret where
  length_eq _ hshare := length_of_combine h hshare
  eval_eq place hplace := ⟨existsUnique_isThrough m place, fun _ hf => eval_of_combine h hplace hf⟩

/-- Shares have no more than one secret. -/
theorem IsSecretOf.unique {secret' : Bytes} (hsize : m.size ≠ 0) (h : IsSecretOf m secret)
    (h' : IsSecretOf m secret') : secret' = secret := by
  have hnil : m.shares ≠ [] := by simpa [ShareMap.size] using hsize
  obtain ⟨share, hshare⟩ := List.exists_mem_of_ne_nil m.shares hnil
  have hlength : secret'.length = secret.length :=
    (h'.length_eq share hshare).trans (h.length_eq share hshare).symm
  -- at each place both are the value at zero of the same polynomial
  refine List.ext_getElem hlength fun place hplace' hplace => ?_
  obtain ⟨⟨f, hf, -⟩, heval⟩ := h.eval_eq place hplace
  obtain ⟨-, heval'⟩ := h'.eval_eq place hplace'
  have hbyte : secret'.getD place 0 = secret.getD place 0 :=
    Gf256.ofByte_injective ((heval' f hf).trans (heval f hf).symm)
  simpa [List.getD_eq_getElem?_getD, hplace, hplace'] using hbyte

/-- Shares that are not empty combine iff they are enough and of one length. -/
theorem combinable_iff_of_bytes_ne (hthreshold : threshold.toNat ≠ 0)
    (hbytes : ∀ share ∈ m.shares, share.bytes ≠ []) :
    Combinable threshold m ↔ threshold.toNat ≤ m.size ∧ m.EqualLengths := by
  constructor
  · intro h
    exact ⟨h.threshold_le, h.length_eq⟩
  · rintro ⟨henough, hlengths⟩
    exact ⟨henough, by omega, hbytes, hlengths⟩

/-- Of the reasons to refuse shares that are enough and not empty, only their lengths are left. -/
theorem combine_eq_error_of_enough {fault : CryptoFault} (hthreshold : threshold.toNat ≠ 0)
    (hbytes : ∀ share ∈ m.shares, share.bytes ≠ []) (henough : threshold.toNat ≤ m.size)
    (h : combine threshold m = .error fault) :
    fault = .combine "All shares must have the same length" := by
  cases combine_eq_error_iff.mp h with
  | tooFew hfew => omega
  | none _ hnone => omega
  | emptyShare _ hempty =>
    obtain ⟨share, hshare, hnil⟩ := hempty
    exact absurd hnil (hbytes share hshare)
  | lengths => rfl

end Sharing

/-! ### The threshold -/

theorem Settings.two_le_threshold {s : Settings} (h : s.check = .ok ()) :
    2 ≤ s.threshold.toNat := by
  unfold check at h
  split_ifs at h with hthreshold
  obtain ⟨hlow, -⟩ := not_or.mp hthreshold
  exact UInt8.le_iff_toNat_le.mp (UInt8.not_lt.mp hlow)

/-! ### Attempts -/

namespace Vault

variable {ι : Type} {β : ι → Type} {v : Vault β} {session : KeyPair}

section Dealt

/-! An attempt in a session whose pending shares may have been dealt. -/

variable (hphase : v.phase = .unsealing session) (hthreshold : v.settings.threshold.toNat ≠ 0)
  (hbytes : ∀ share ∈ v.shares.shares, share.bytes ≠ []) (stamp : Stamp)

include hphase

/-- An attempt with too few shares does nothing at all. -/
theorem reconstruct_of_tooFew (hfew : v.shares.size < v.settings.threshold.toNat) :
    v.reconstruct stamp =
      (.ok (.failure v.shares.size (Sharing.needed v.settings.threshold v.shares.size)), v) := by
  rw [reconstruct_eq stamp hphase]
  exact if_pos hfew

include hthreshold hbytes

/-- An attempt with enough shares of different lengths fails, and one entry says so. -/
theorem reconstruct_of_lengths (henough : v.settings.threshold.toNat ≤ v.shares.size)
    (hlengths : ¬v.shares.EqualLengths) :
    ∃ answer e, e.kind = .unwrapFailed ∧ e.shareCount = some v.shares.size ∧ e.success = false ∧
      v.reconstruct stamp = (.ok (.failure v.shares.size answer), v.log e) := by
  have hnot : ¬∃ secret, Sharing.combine v.settings.threshold v.shares = .ok secret := by
    rw [Sharing.exists_combine_iff, Sharing.combinable_iff_of_bytes_ne hthreshold hbytes]
    exact fun h => hlengths h.2
  rcases reconstruct_of_unsealing stamp hphase with
    ⟨hfew, -⟩ | ⟨fault, -, -, h⟩ | ⟨secret, -, hsecret, -⟩
  · exact absurd henough (Nat.not_le.mpr hfew)
  · exact ⟨_, _, rfl, rfl, rfl, h⟩
  · exact absurd ⟨secret, hsecret⟩ hnot

/-- An attempt with enough shares of one length installs the master key of their secret. -/
theorem reconstruct_of_equalLengths (henough : v.settings.threshold.toNat ≤ v.shares.size)
    (hlengths : v.shares.EqualLengths) :
    ∃ secret, Sharing.IsSecretOf v.shares secret ∧
      (v.reconstruct stamp).1 = .ok ⟨true, v.shares.size, v.identity.map (·.digest), ""⟩ ∧
      SameButJournal (v.install session (v.settings.derivation.derive secret))
        (v.reconstruct stamp).2 := by
  obtain ⟨secret, hsecret⟩ := Sharing.exists_combine_iff.mpr
    ((Sharing.combinable_iff_of_bytes_ne hthreshold hbytes).mpr ⟨henough, hlengths⟩)
  refine ⟨secret, Sharing.isSecretOf_of_combine hsecret, ?_⟩
  have hcount : ¬v.pending < v.settings.threshold.toNat := Nat.not_lt.mpr henough
  rw [reconstruct_eq stamp hphase, if_neg hcount, hsecret]
  exact ⟨rfl, rfl⟩

end Dealt

/-- **Number and lengths decide.**  In a session of any run, an attempt to reconstruct the master
key is answered with the number of the pending shares, and it succeeds iff they are as many as the
threshold asks for and of one length.  Then the master key is installed that the settings derive
from the secret of the pending shares.  If they are too few, nothing changes, and nothing is
recorded; if they differ in length, one entry is recorded and nothing else changes.  That entry is
the last one of the journal, and of the others the oldest one makes room for it if need be.

Enough pending shares are never found to be empty or too few, and every root secret has a master
key, so that there are no other reasons to fail. -/
theorem reconstruct_exact [DecidableEq ι] {settings : Settings} {policy : Policy}
    {identity : Option Identity} {start : Vault β}
    (hstart : ofSettings? settings policy identity = .ok start) {clock : Clock} {rng : Entropy}
    {w : World β} (h : World.Reaches ⟨start, clock, rng⟩ w) {session : KeyPair}
    (hphase : w.vault.phase = .unsealing session) (stamp : Stamp) :
    (∃ status, (w.vault.reconstruct stamp).1 = .ok status ∧
      status.shareCount = w.vault.shares.size ∧
      (status.success = true ↔
        settings.threshold.toNat ≤ w.vault.shares.size ∧ w.vault.shares.EqualLengths)) ∧
    (settings.threshold.toNat ≤ w.vault.shares.size → w.vault.shares.EqualLengths →
      ∃! secret, Sharing.IsSecretOf w.vault.shares secret ∧
        SameButJournal (w.vault.install session (settings.derivation.derive secret))
          (w.vault.reconstruct stamp).2) ∧
    (w.vault.shares.size < settings.threshold.toNat →
      (w.vault.reconstruct stamp).2 = w.vault) ∧
    (settings.threshold.toNat ≤ w.vault.shares.size → ¬w.vault.shares.EqualLengths →
      ∃ e dropped, e.kind = .unwrapFailed ∧ e.shareCount = some w.vault.shares.size ∧
        e.success = false ∧ (w.vault.reconstruct stamp).2 = w.vault.log e ∧
        dropped.length ≤ 1 ∧
        (w.vault.journal.size ≠ w.vault.journal.limit → dropped = []) ∧
        dropped ++ (w.vault.reconstruct stamp).2.journal.entries =
          w.vault.journal.entries ++ [e]) ∧
    (∀ fault, settings.threshold.toNat ≤ w.vault.shares.size →
      Sharing.combine settings.threshold w.vault.shares = .error fault →
        fault = .combine "All shares must have the same length") ∧
    ∀ derivation : Derivation, ∀ secret fault, derivation.derive? secret ≠ .error fault := by
  obtain ⟨hcheck, rfl⟩ := ofSettings?_eq_ok_iff.mp hstart
  have hsound : Sound (Vault.fresh settings policy identity) w.vault :=
    h.keeps Change.sound Sound.of_sameButJournal (Sound.fresh settings policy identity)
  obtain rfl : w.vault.settings = settings := hsound.settings_eq
  have hbytes : ∀ share ∈ w.vault.shares.shares, share.bytes ≠ [] :=
    fun share hshare => (hsound.shares_dealt share hshare).2
  have htwo := Settings.two_le_threshold hcheck
  have hthreshold : w.vault.settings.threshold.toNat ≠ 0 := by omega
  refine ⟨?_, ?_, ?_, ?_, ?_, ?_⟩
  · by_cases hfew : w.vault.shares.size < w.vault.settings.threshold.toNat
    · refine ⟨_, congrArg Prod.fst (reconstruct_of_tooFew hphase stamp hfew), rfl, nofun, ?_⟩
      intro henough
      exact absurd hfew (Nat.not_lt.mpr henough.1)
    have henough := Nat.not_lt.mp hfew
    by_cases hlengths : w.vault.shares.EqualLengths
    · obtain ⟨secret, -, hanswer, -⟩ :=
        reconstruct_of_equalLengths hphase hthreshold hbytes stamp henough hlengths
      exact ⟨_, hanswer, rfl, fun _ => ⟨henough, hlengths⟩, fun _ => rfl⟩
    · obtain ⟨answer, e, -, -, -, hfailed⟩ :=
        reconstruct_of_lengths hphase hthreshold hbytes stamp henough hlengths
      exact ⟨_, congrArg Prod.fst hfailed, rfl, nofun, fun hboth => absurd hboth.2 hlengths⟩
  · intro henough hlengths
    obtain ⟨secret, hsecret, -, hinstalled⟩ :=
      reconstruct_of_equalLengths hphase hthreshold hbytes stamp henough hlengths
    have hsize : w.vault.shares.size ≠ 0 := by omega
    exact ⟨secret, ⟨hsecret, hinstalled⟩, fun _ hother => hsecret.unique hsize hother.1⟩
  · intro hfew
    rw [reconstruct_of_tooFew hphase stamp hfew]
  · intro henough hlengths
    obtain ⟨answer, e, hkind, hcount, hsuccess, hfailed⟩ :=
      reconstruct_of_lengths hphase hthreshold hbytes stamp henough hlengths
    have hlog : (w.vault.reconstruct stamp).2 = w.vault.log e := congrArg Prod.snd hfailed
    obtain ⟨dropped, hone, hroom, hentries⟩ := w.vault.journal.exists_record e
    refine ⟨e, dropped, hkind, hcount, hsuccess, hlog, hone, hroom, ?_⟩
    rw [hlog]
    exact hentries
  · intro fault henough hfault
    exact Sharing.combine_eq_error_of_enough hthreshold hbytes henough hfault
  · intro derivation secret fault
    rw [Derivation.derive?_eq]
    nofun

/-- A standard vault in its first session, which can be reached from a world, with certain pending
shares. -/
structure IsPending [DecidableEq ι] (x : World β) (m : ShareMap) (w : World β) : Prop where
  reaches : World.Reaches x w
  settings_eq : w.vault.settings = .standard
  phase_eq : w.vault.phase = .unsealing ⟨.zeros 32⟩
  shares_eq : w.vault.shares = m

/-- To the pending shares any other may be added that is dealt. -/
theorem IsPending.exists_insert [DecidableEq ι] {x w : World β} {m : ShareMap}
    (h : IsPending x m w) (share : Share) (hindex : share.index ≠ 0) (hle : share.index ≤ 3)
    (hbytes : share.bytes ≠ []) (hlength : share.toBytes.length ≤ Gcm.maxLength) :
    ∃ y, IsPending x (m.insert share) y := by
  obtain ⟨e, hopen⟩ := World.exists_unpackShare_eq share hindex hbytes hlength
  have hsubmit : w.vault.submit .blank e = w.vault.keepShare .blank share :=
    submit_of_unpackShare h.phase_eq (by rw [h.settings_eq]; exact hopen)
      (by rw [h.settings_eq]; exact hle)
  have hvault : ((Operation.submit .blank e).run w).2.vault = (w.vault.keepShare .blank share).2 :=
    congrArg Prod.snd hsubmit
  refine ⟨_, h.reaches.operation (.submit .blank e), ?_, ?_, ?_⟩
  · rw [hvault]
    exact h.settings_eq
  · rw [hvault]
    exact h.phase_eq
  · rw [hvault, ← h.shares_eq]
    rfl

/-- Shares arrive one after the other.  The first one alone is too few.  With the second one they
are enough, unless that is too long. -/
theorem reconstruct_exact_of_two_shares :
    ∃ one two unequal : World fun _ : Unit => Unit,
      one.vault.shares = .ofList [⟨1, [5]⟩] ∧ (one.vault.reconstruct .blank).2 = one.vault ∧
      two.vault.shares = .ofList [⟨1, [5]⟩, ⟨2, [7]⟩] ∧
      (∃ secret, Sharing.IsSecretOf two.vault.shares secret ∧
        (two.vault.reconstruct .blank).2.phase.masterKey? =
          some (Derivation.sha256.derive secret)) ∧
      unequal.vault.shares = .ofList [⟨1, [5]⟩, ⟨2, [7, 9]⟩] ∧
      ∃ e dropped, e.kind = .unwrapFailed ∧ e.shareCount = some 2 ∧ dropped.length ≤ 1 ∧
        dropped ++ (unequal.vault.reconstruct .blank).2.journal.entries =
          unequal.vault.journal.entries ++ [e] := by
  have hstart : ofSettings? .standard .alwaysAccept none =
      .ok (World.blank fun _ : Unit => Unit).vault := rfl
  have hx : IsPending (.blank fun _ : Unit => Unit) .empty (.starting _) :=
    ⟨(World.Reaches.refl _).operation (.startSession .blank), rfl, rfl, rfl⟩
  obtain ⟨one, hone⟩ := hx.exists_insert ⟨1, [5]⟩ (by decide) (by decide) (by decide) (by decide)
  obtain ⟨two, htwo⟩ := hone.exists_insert ⟨2, [7]⟩ (by decide) (by decide) (by decide) (by decide)
  obtain ⟨unequal, hunequal⟩ :=
    hone.exists_insert ⟨2, [7, 9]⟩ (by decide) (by decide) (by decide) (by decide)
  refine ⟨one, two, unequal, hone.shares_eq, ?_, htwo.shares_eq, ?_, hunequal.shares_eq, ?_⟩
  · obtain ⟨-, -, htooFew, -⟩ := reconstruct_exact hstart hone.reaches hone.phase_eq .blank
    apply htooFew
    rw [hone.shares_eq]
    decide +kernel
  · obtain ⟨-, hinstalls, -⟩ := reconstruct_exact hstart htwo.reaches htwo.phase_eq .blank
    have henough : Settings.standard.threshold.toNat ≤ two.vault.shares.size := by
      rw [htwo.shares_eq]
      decide +kernel
    have hlengths : two.vault.shares.EqualLengths := by
      rw [htwo.shares_eq]
      unfold ShareMap.EqualLengths
      decide +kernel
    obtain ⟨secret, ⟨hsecret, hinstalled⟩, -⟩ := hinstalls henough hlengths
    refine ⟨secret, hsecret, ?_⟩
    rw [hinstalled.phase_eq]
    rfl
  · obtain ⟨-, -, -, hfails, -⟩ :=
      reconstruct_exact hstart hunequal.reaches hunequal.phase_eq .blank
    have henough : Settings.standard.threshold.toNat ≤ unequal.vault.shares.size := by
      rw [hunequal.shares_eq]
      decide +kernel
    have hlengths : ¬unequal.vault.shares.EqualLengths := by
      rw [hunequal.shares_eq]
      unfold ShareMap.EqualLengths
      decide +kernel
    have hsize : unequal.vault.shares.size = 2 := by
      rw [hunequal.shares_eq]
      decide +kernel
    obtain ⟨e, dropped, hkind, hcount, -, -, hone, -, hentries⟩ := hfails henough hlengths
    exact ⟨e, dropped, hkind, hcount.trans (congrArg some hsize), hone, hentries⟩

end Vault

end QuorumVault
