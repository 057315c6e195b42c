import Mathlib.Tactic
import QuorumVault.Proofs.Vault.Outcome
import QuorumVault.Proofs.Vault.Peer

/-!
# Runs with their history

A `History` is a run together with all that was done in it (`Deed`), the last deed first, each with
the world in which it was done.  A validation counts as two steps, before and after its transform,
so that the deeds of the transform stand between them; hence every run has a history
(`World.Reaches.exists_history`), and a deed finds the world that the deeds before it have left
(`History.of_append`).
-/

namespace QuorumVault

variable {ι : Type} {β : ι → Type}

/-- What is done to a vault, with the world in which it is done. -/
inductive Deed {ι : Type} (β : ι → Type) where
  | call (w : World β) (o : Operation)
  /-- A token is looked up for a validation. -/
  | present (w : World β) (t : TokenHandle) (i : ι)

def Operation.isSeal : Operation → Bool
  | sealOff _ => true
  | _ => false

namespace Deed

def world : Deed β → World β
  | call w _ => w
  | present w _ _ => w

def isSeal : Deed β → Bool
  | call _ o => o.isSeal
  | present _ _ _ => false

/-- The deeds since the last one of a kind. -/
def since (p : Deed β → Bool) (deeds : List (Deed β)) : List (Deed β) :=
  deeds.takeWhile fun d => !p d

theorem since_cons_of_eq_true {p : Deed β → Bool} {d : Deed β} (h : p d = true)
    (deeds : List (Deed β)) : since p (d :: deeds) = [] := by
  rw [since, List.takeWhile_cons_of_neg (by simp [h])]

theorem since_cons_of_eq_false {p : Deed β → Bool} {d : Deed β} (h : p d = false)
    (deeds : List (Deed β)) : since p (d :: deeds) = d :: since p deeds := by
  rw [since, List.takeWhile_cons_of_pos (by simp [h]), since]

end Deed

variable {start w : World β} {deeds later earlier : List (Deed β)} {d : Deed β} [DecidableEq ι]

/-- The runs that begin in a world, with what is done in them. -/
inductive History (start : World β) : List (Deed β) → World β → Prop where
  | refl : History start [] start
  | elsewhere {deeds : List (Deed β)} {w : World β} (clock : Clock) (rng : Entropy)
      (h : History start deeds w) : History start deeds { w with clock := clock, rng := rng }
  | call {deeds : List (Deed β)} {w : World β} (o : Operation) (h : History start deeds w) :
      History start (.call w o :: deeds) (o.run w).2
  | present {deeds : List (Deed β)} {w : World β} (t : TokenHandle) (i : ι)
      (h : History start deeds w) :
      History start (.present w t i :: deeds)
        (World.home.place ((World.home.issuer w).present (World.home.clock w) t i).2 w)
  | settle {deeds : List (Deed β)} {w : World β} (t : TokenHandle) (i : ι) (serial : ℕ)
      (issuedAt : Timestamp) (value : Option (β i)) (h : History start deeds w) :
      History start deeds (World.home.place
        ((World.home.issuer w).settle (World.home.clock w) t i serial issuedAt value).2 w)

/-- **Every run has a history**, and a run that goes on from a history makes it longer. -/
theorem World.Reaches.exists_history {x y : World β} (h : Reaches x y)
    (hx : History start deeds x) :
    ∃ more, History start (more ++ deeds) y := by
  -- a transform goes on from wherever it is called, and so the history in front of it varies
  induction h generalizing deeds with
  | refl w => exact ⟨[], hx⟩
  | elsewhere clock rng h ih =>
    obtain ⟨more, hy⟩ := ih hx
    exact ⟨more, hy.elsewhere clock rng⟩
  | @operation x y o h ih =>
    obtain ⟨more, hy⟩ := ih hx
    exact ⟨.call y o :: more, hy.call o⟩
  | @validate x y t i transform htransform h ihtransform ih =>
    obtain ⟨more, hy⟩ := ih hx
    have hpresent := hy.present t i
    unfold Issuer.validateIn
    rcases hpresented : (home.issuer y).present (home.clock y) t i with
      ⟨_ | value | ⟨serial, token⟩, issuer⟩
    · rw [hpresented] at hpresent
      exact ⟨.present y t i :: more, hpresent⟩
    · rw [hpresented] at hpresent
      exact ⟨.present y t i :: more, hpresent⟩
    · rw [hpresented] at hpresent
      obtain ⟨inner, hinner⟩ := ihtransform token.payload _ hpresent
      refine ⟨inner ++ .present y t i :: more, ?_⟩
      rw [List.append_assoc]
      exact hinner.settle t i serial token.issuedAt _

namespace History

/-- A deed is done in the world that the deeds before it have left. -/
theorem of_append (h : History start (later ++ d :: earlier) w) :
    History start earlier d.world := by
  generalize hdeeds : later ++ d :: earlier = deeds at h
  induction h generalizing later with
  | refl => exact absurd hdeeds (by simp)
  | elsewhere clock rng h ih => exact ih hdeeds
  | call o h ih =>
    cases later with
    | nil =>
      obtain ⟨rfl, rfl⟩ := List.cons.inj hdeeds
      exact h
    | cons e later => exact ih (List.cons.inj hdeeds).2
  | present t i h ih =>
    cases later with
    | nil =>
      obtain ⟨rfl, rfl⟩ := List.cons.inj hdeeds
      exact h
    | cons e later => exact ih (List.cons.inj hdeeds).2
  | settle t i serial issuedAt value h ih => exact ih hdeeds

/-- What holds at the start, and is kept by every operation and whatever becomes of the verdicts on
tokens, holds of every history. -/
theorem induct {motive : List (Deed β) → Vault β → Prop} (hstart : motive [] start.vault)
    (hcall : ∀ {deeds : List (Deed β)} {w : World β} {o : Operation} {entry : Option Entry}
      {u : Vault β}, Outcome w.vault o (o.run w).1 entry u → o.records w = entry.toList →
        motive deeds w.vault → motive (.call w o :: deeds) (u.logged entry))
    (hpresent : ∀ {deeds : List (Deed β)} {w : World β} (t : TokenHandle) (i : ι),
      motive deeds w.vault → motive (.present w t i :: deeds) w.vault)
    (hissuer : ∀ {deeds : List (Deed β)} {v : Vault β} (issuer : Issuer β),
      motive deeds v → motive deeds { v with issuer := issuer })
    (h : History start deeds w) : motive deeds w.vault := by
  induction h with
  | refl => exact hstart
  | elsewhere clock rng h ih => exact ih
  | @call deeds w o h ih =>
    obtain ⟨entry, u, houtcome, hvault, hrecords⟩ := o.exists_outcome w
    rw [hvault]
    exact hcall houtcome hrecords ih
  | present t i h ih => exact hissuer _ (hpresent t i ih)
  | settle t i serial issuedAt value h ih => exact hissuer _ ih

/-- What every change of a vault keeps holds after every history. -/
theorem keeps {P : Vault β → Prop} (hchange : ∀ {v w}, Vault.Change v w → P v → P w)
    (hjournal : ∀ {v w}, Vault.SameButJournal v w → P v → P w) (h : History start deeds w)
    (hstart : P start.vault) : P w.vault := by
  induction h with
  | refl => exact hstart
  | elsewhere clock rng h ih => exact ih
  | call o h ih =>
    obtain ⟨u, hu, hrecord⟩ := o.changes_run _
    exact hjournal hrecord (hchange hu ih)
  | @present deeds w t i h ih => exact hchange (Vault.change_present w.clock t i w.vault) ih
  | @settle deeds w t i serial issuedAt value h ih =>
    exact hchange (Vault.change_settle w.clock t i serial issuedAt value w.vault) ih

/-- A vault that was made from settings stays sound. -/
theorem sound {settings : Settings} {policy : Policy} {identity : Option Identity} {v : Vault β}
    {clock : Clock} {rng : Entropy} (hv : Vault.ofSettings? settings policy identity = .ok v)
    (h : History ⟨v, clock, rng⟩ deeds w) :
    Vault.Sound (.fresh settings policy identity) w.vault := by
  obtain ⟨-, rfl⟩ := Vault.ofSettings?_eq_ok_iff.mp hv
  exact h.keeps Vault.Change.sound Vault.Sound.of_sameButJournal (Vault.Sound.fresh _ _ _)

end History

/-! ### A first run -/

/-- An event at the epoch. -/
def Stamp.blank : Stamp := ⟨.zeros 16, .ofSeconds 0⟩

namespace World

/-- A standard vault that has just been made, at the epoch, with a source that yields zeros. -/
def blank (β : ι → Type) : World β :=
  ⟨.fresh .standard .alwaysAccept none, ⟨.ofSeconds 0, ⟨0⟩⟩, ⟨fun _ => 0, none, 0⟩⟩

/-- The vault starts a session, -/
def starting (β : ι → Type) : World β := ((Operation.startSession .blank).run (blank β)).2

/-- and is given shares, each in an envelope that it can open, -/
theorem exists_unpackShare_eq (share : Share) (hindex : share.index ≠ 0) (hbytes : share.bytes ≠ [])
    (hlength : share.toBytes.length ≤ Gcm.maxLength) :
    ∃ envelope : Envelope, envelope.unpackShare .aes256Gcm ⟨.zeros 32⟩ = .ok share := by
  obtain ⟨envelope, hpack⟩ : ∃ envelope, Envelope.packWith .aes256Gcm (.zeros 32) (.zeros 16)
      (KeyPair.mk (.zeros 32)).publicKey Envelope.shareLabel share.toBytes = .ok envelope :=
    Envelope.exists_packWith .aes256Gcm (.zeros 16) (by decide +kernel) hlength (by decide)
  have hunpack := Envelope.unpack_of_packWith hpack
  exact ⟨envelope, Envelope.unpackShare_eq_ok_iff.mpr ⟨hunpack, hindex, hbytes⟩⟩

/-- and asks for the master key of a peer. -/
def asking (β : ι → Type) : World β := ((Operation.request .blank).run (starting β)).2

/-- The request that it has issued. -/
def asked : KeyRequest := .unsigned (KeyPair.mk (.zeros 32)).publicKey ⟨.zeros 32⟩

omit [DecidableEq ι] in
theorem asksBy_asking (β : ι → Type) : (asking β).vault.AsksBy asked :=
  ⟨⟨.zeros 32⟩, rfl, rfl, rfl⟩

omit [DecidableEq ι] in
/-- The vault once it has taken the master key over. -/
def taken (β : ι → Type) (session : KeyPair) (masterKey : SecretKey) : World β :=
  { asking β with vault := ({ (asking β).vault with requestedNonce := none }.install session
      masterKey).log (Entry.ofStamp .blank .provisioned) }

omit [DecidableEq ι] in
/-- Whatever the master key of the peer is, there is an answer that the vault takes over. -/
theorem exists_run_takeOver_asking (β : ι → Type) (masterKey : SecretKey) :
    ∃ bundle session rng rng',
      Envelope.pack .aes256Gcm asked.sessionKey asked.nonce.toBytes masterKey.toBytes rng =
        (.ok bundle, rng') ∧
      (Operation.takeOver .blank bundle).run (asking β) =
        (.takenOver (.ok ()), taken β session masterKey) := by
  have hmessage : masterKey.toBytes.length ≤ Gcm.maxLength := by
    rw [SecretKey.toBytes, Octets.length_toList]
    decide
  obtain ⟨bundle, hpackWith⟩ : ∃ bundle, Envelope.packWith .aes256Gcm (.zeros 32) (.zeros 16)
      asked.sessionKey asked.nonce.toBytes masterKey.toBytes = .ok bundle :=
    Envelope.exists_packWith .aes256Gcm (.zeros 16) (by decide +kernel) hmessage (by decide)
  obtain ⟨rng, rng', hpack⟩ := Envelope.exists_pack_of_packWith hpackWith
  obtain ⟨session, -, htake⟩ := Vault.takeOver_of_pack .blank (asksBy_asking β) hpack
  refine ⟨bundle, session, rng, rng', hpack, ?_⟩
  rw [Operation.run, htake]
  rfl

end World

/-- What is done in the first run up to here. -/
def Deed.first (β : ι → Type) (bundle : Envelope) : List (Deed β) :=
  [call (.asking β) (.takeOver .blank bundle), call (.starting β) (.request .blank),
    call (.blank β) (.startSession .blank)]

theorem History.taken {bundle : Envelope} {session : KeyPair} {masterKey : SecretKey}
    (h : History start deeds (.blank β))
    (htake : (Operation.takeOver .blank bundle).run (.asking β) =
      (.takenOver (.ok ()), .taken β session masterKey)) :
    History start (Deed.first β bundle ++ deeds) (.taken β session masterKey) := by
  have hasking : History start (.call (.starting β) (.request .blank) ::
      .call (.blank β) (.startSession .blank) :: deeds) (.asking β) := (h.call _).call _
  have htaken := hasking.call (.takeOver .blank bundle)
  rw [htake] at htaken
  exact htaken

end QuorumVault
