import Mathlib.Tactic
import QuorumVault.Proofs.Token.Verdicts
import QuorumVault.Proofs.Vault.History

/-!
# Keys that change during a validation

While the transform of a validation runs, anything may happen to the vault (`World.Meanwhile`): time
passes, the vault is asked to do something, keys are installed or cleared, and other tokens are
validated.  It is recorded whether the keys were exchanged or removed in the course of this.

Every installation of keys has a number, and the numbers only grow (`Issuer.Later`).  So the
installation under which a token was decoded is still in place after the transform iff the keys have
not been touched, even if the same master key was put back (`World.Meanwhile.isCurrent_eq`).  In
`World.validateIn_exact` this decides what the validation gives and what it leaves behind.
-/

namespace QuorumVault

variable {ι : Type} {β : ι → Type}

/-! ### Installations -/

namespace Issuer

variable {a b c : Issuer β} {rekeyed again : Bool}

/-- The installed keys have one of the numbers that have been given out. -/
def Numbered (a : Issuer β) : Prop := ∀ k, a.installed = some k → k.serial < a.installations

theorem numbered_ofPolicy (policy : TokenPolicy) : (ofPolicy policy : Issuer β).Numbered := nofun

/-- What an issuer comes to: the installed keys are the same as long as they have not been touched,
and have a new number if they have. -/
structure Later (rekeyed : Bool) (a b : Issuer β) : Prop where
  installations_le : a.installations ≤ b.installations
  installed_eq : rekeyed = false → b.installed = a.installed
  le_serial : rekeyed = true → ∀ k, b.installed = some k → a.installations ≤ k.serial
  numbered : a.Numbered → b.Numbered

namespace Later

theorem refl (a : Issuer β) : Later false a a := ⟨le_rfl, fun _ => rfl, nofun, id⟩

theorem trans (hab : Later rekeyed a b) (hbc : Later again b c) :
    Later (rekeyed || again) a c where
  installations_le := hab.installations_le.trans hbc.installations_le
  installed_eq h := by
    obtain ⟨hrekeyed, hagain⟩ := Bool.or_eq_false_iff.mp h
    exact (hbc.installed_eq hagain).trans (hab.installed_eq hrekeyed)
  le_serial h k hk := by
    -- the keys are those of the later change, or else they were left as the earlier one made them
    cases again with
    | true => exact hab.installations_le.trans (hbc.le_serial rfl k hk)
    | false =>
      rw [hbc.installed_eq rfl] at hk
      rw [Bool.or_false] at h
      exact hab.le_serial h k hk
  numbered ha := hbc.numbered (hab.numbered ha)

theorem of_sameButVerdicts (h : SameButVerdicts a b) : Later false a b where
  installations_le := h.installations.ge
  installed_eq _ := h.installed
  le_serial := nofun
  numbered ha k hk := by
    rw [h.installed] at hk
    rw [h.installations]
    exact ha k hk

theorem install (master : SecretKey) (a : Issuer β) : Later true a (a.install master) where
  installations_le := Nat.le_succ a.installations
  installed_eq := nofun
  le_serial _ k hk := by
    obtain rfl := Option.some.inj hk
    exact le_rfl
  numbered _ k hk := by
    obtain rfl := Option.some.inj hk
    exact Nat.lt_succ_self a.installations

theorem clear (a : Issuer β) : Later true a a.clear where
  installations_le := le_rfl
  installed_eq := nofun
  le_serial _ _ hk := by cases hk
  numbered _ _ hk := by cases hk

/-- An installation is still in place iff the keys have not been touched. -/
theorem isCurrent_eq (h : Later rekeyed a b) (ha : a.Numbered) {k : Installation}
    (hk : a.installed = some k) : b.isCurrent k.serial = !rekeyed := by
  cases rekeyed with
  | false => exact isCurrent_iff.mpr ⟨k, (h.installed_eq rfl).trans hk, rfl⟩
  | true =>
    rw [Bool.not_true, ← Bool.not_eq_true, isCurrent_iff]
    rintro ⟨k', hk', hserial⟩
    -- keys that were put in place later have a number that had not been given out before
    have hlt := ha k hk
    have hle := h.le_serial rfl k' hk'
    omega

end Later

end Issuer

/-! ### What can touch the keys -/

/-- The answer says that the vault has got its keys, or that it has none any more. -/
def Answer.rekeys : Answer → Bool
  | reconstructed (.ok status) => status.success
  | takenOver (.ok ()) | sealed _ => true
  | _ => false

theorem Outcome.later {v u : Vault β} {o : Operation} {answer : Answer} {entry : Option Entry}
    (h : Outcome v o answer entry u) : v.issuer.Later answer.rekeys u.issuer := by
  cases h with
  | reconstruct masterKey hphase => exact .install masterKey v.issuer
  | takeOver hphase hnonce hempty hopen => exact .install _ v.issuer
  | sealOff => exact .clear v.issuer
  | acceptsToken accepted hverdicts => exact .of_sameButVerdicts hverdicts
  | _ => exact .refl v.issuer

theorem Operation.later_run (o : Operation) (w : World β) :
    w.vault.issuer.Later (o.run w).1.rekeys (o.run w).2.vault.issuer := by
  obtain ⟨entry, u, houtcome, hvault, -⟩ := o.exists_outcome w
  have hissuer : (u.logged entry).issuer = u.issuer := by
    rw [Vault.sameButJournal_logged entry u]
  rw [hvault, hissuer]
  exact houtcome.later

namespace World

variable [DecidableEq ι] {w x y z : World β} {t : TokenHandle} {i : ι} {rekeyed again : Bool}

/-- The world after a token has been looked up for a validation. -/
def presented (t : TokenHandle) (i : ι) (w : World β) : World β :=
  home.place (w.vault.issuer.present w.clock t i).2 w

/-- What may happen next, and whether it exchanges or removes the keys.  A validation counts as two
steps, before and after its transform. -/
inductive Step : Bool → World β → World β → Prop where
  | elsewhere (clock : Clock) (rng : Entropy) (w : World β) :
      Step false w { w with clock := clock, rng := rng }
  | operation (o : Operation) (w : World β) : Step (o.run w).1.rekeys w (o.run w).2
  | install (master : SecretKey) (w : World β) :
      Step true w (home.place (w.vault.issuer.install master) w)
  | clear (w : World β) : Step true w (home.place w.vault.issuer.clear w)
  | present (t : TokenHandle) (i : ι) (w : World β) : Step false w (w.presented t i)
  | settle (t : TokenHandle) (i : ι) (serial : ℕ) (issuedAt : Timestamp) (value : Option (β i))
      (w : World β) :
      Step false w (home.place (w.vault.issuer.settle w.clock t i serial issuedAt value).2 w)

/-- What may happen meanwhile, and whether the keys are exchanged or removed in the course of it. -/
inductive Meanwhile (x : World β) : Bool → World β → Prop where
  | nothing : Meanwhile x false x
  | step {rekeyed again : Bool} {y z : World β} (h : Meanwhile x rekeyed y)
      (hstep : Step again y z) : Meanwhile x (rekeyed || again) z

/-- Each step leaves the installed keys or gives them a new number. -/
theorem Step.later (h : Step rekeyed y z) : y.vault.issuer.Later rekeyed z.vault.issuer := by
  cases h with
  | elsewhere clock rng => exact .refl _
  | operation o => exact o.later_run y
  | install master => exact .install master _
  | clear => exact .clear _
  | present t i => exact .of_sameButVerdicts (Issuer.sameButVerdicts_present _ t i _)
  | settle t i serial issuedAt value =>
    exact .of_sameButVerdicts (Issuer.sameButVerdicts_settle _ t i serial issuedAt value _)

namespace Meanwhile

theorem trans (hxy : Meanwhile x rekeyed y) (hyz : Meanwhile y again z) :
    Meanwhile x (rekeyed || again) z := by
  induction hyz with
  | nothing =>
    rw [Bool.or_false]
    exact hxy
  | step h hstep ih =>
    rw [← Bool.or_assoc]
    exact ih.step hstep

theorem later (h : Meanwhile x rekeyed y) : x.vault.issuer.Later rekeyed y.vault.issuer := by
  induction h with
  | nothing => exact .refl _
  | step h hstep ih => exact ih.trans hstep.later

/-- The installation under which a token was looked up is still in place iff the keys have not been
touched, even if the same keys were put back. -/
theorem isCurrent_eq (h : Meanwhile (w.presented t i) rekeyed y) (hw : w.vault.issuer.Numbered)
    {k : Installation} (hk : w.vault.issuer.installed = some k) :
    y.vault.issuer.isCurrent k.serial = !rekeyed := by
  have hlater := (Step.present t i w).later.trans h.later
  rw [Bool.false_or] at hlater
  exact hlater.isCurrent_eq hw hk

/-- The same keys are installed as before iff they have not been touched. -/
theorem rekeyed_eq_false_iff (h : Meanwhile (w.presented t i) rekeyed y)
    (hw : w.vault.issuer.Numbered) {k : Installation} (hk : w.vault.issuer.installed = some k) :
    rekeyed = false ↔ y.vault.issuer.installed = w.vault.issuer.installed := by
  have hlater := (Step.present t i w).later.trans h.later
  rw [Bool.false_or] at hlater
  refine ⟨hlater.installed_eq, fun hsame => ?_⟩
  have hstill : y.vault.issuer.isCurrent k.serial = true :=
    Issuer.isCurrent_iff.mpr ⟨k, hsame.trans hk, rfl⟩
  rw [h.isCurrent_eq hw hk] at hstill
  simpa using hstill

end Meanwhile

/-! ### Validations -/

section Decoded

variable {serial : ℕ} {token : Token.Decoded}
  (hdecoded : (w.vault.issuer.present w.clock t i).1 = .decoded serial token)
  (transform : Bytes → World β → Option (β i) × World β)

include hdecoded

/-- A validation whose token is decoded looks it up, runs the transform, and settles. -/
theorem validateIn_of_decoded :
    Issuer.validateIn home t i transform w =
      let value := (transform token.payload (w.presented t i)).1
      let y := (transform token.payload (w.presented t i)).2
      let settled := y.vault.issuer.settle y.clock t i serial token.issuedAt value
      (settled.1, home.place settled.2 y) := by
  unfold Issuer.validateIn presented
  rcases hpresent : w.vault.issuer.present w.clock t i with ⟨found, issuer⟩
  rw [hpresent] at hdecoded
  obtain rfl : found = .decoded serial token := hdecoded
  rw [show (home.issuer w).present (home.clock w) t i = _ from hpresent]
  rfl

/-- If the transform gives no value, nothing is done after it. -/
theorem validateIn_of_transform_eq_none
    (h : (transform token.payload (w.presented t i)).1 = none) :
    Issuer.validateIn home t i transform w =
      (none, (transform token.payload (w.presented t i)).2) := by
  rw [validateIn_of_decoded hdecoded]
  dsimp only
  rw [h]
  rfl

/-- If the keys are touched meanwhile, nothing is done after the transform. -/
theorem validateIn_of_rekeyed (hw : w.vault.issuer.Numbered)
    (h : Meanwhile (w.presented t i) true (transform token.payload (w.presented t i)).2) :
    Issuer.validateIn home t i transform w =
      (none, (transform token.payload (w.presented t i)).2) := by
  obtain ⟨k, hk, rfl, -, -⟩ := Issuer.present_eq_decoded hdecoded
  have hgone := h.isCurrent_eq hw hk
  rw [validateIn_of_decoded hdecoded]
  dsimp only
  rcases Issuer.settle_cases _ t i k.serial token.issuedAt _ _ with ⟨a, -, hstill, -⟩ | ⟨-, hsettle⟩
  · rw [hgone] at hstill
    cases hstill
  · rw [hsettle]
    rfl

/-- If the keys are not touched meanwhile, the value of the transform is remembered. -/
theorem validateIn_of_not_rekeyed (hw : w.vault.issuer.Numbered)
    (h : Meanwhile (w.presented t i) false (transform token.payload (w.presented t i)).2) {a : β i}
    (hvalue : (transform token.payload (w.presented t i)).1 = some a) :
    let y := (transform token.payload (w.presented t i)).2
    Issuer.validateIn home t i transform w =
      (some a, home.place { y.vault.issuer with
        validated := y.vault.issuer.validated.put y.clock.running t.digest
          ⟨⟨i, a⟩, token.issuedAt⟩ } y) := by
  intro y
  obtain ⟨k, hk, rfl, -, -⟩ := Issuer.present_eq_decoded hdecoded
  have hstill : y.vault.issuer.isCurrent k.serial = true := h.isCurrent_eq hw hk
  rw [validateIn_of_decoded hdecoded]
  dsimp only
  rw [hvalue, Issuer.settle, if_pos hstill]

/-- With its transform a validation is one of the things that may happen meanwhile. -/
theorem Meanwhile.validateIn
    (h : Meanwhile (w.presented t i) rekeyed (transform token.payload (w.presented t i)).2) :
    Meanwhile w rekeyed (Issuer.validateIn home t i transform w).2 := by
  have hpresented : Meanwhile w false (w.presented t i) := .step .nothing (.present t i w)
  have hsettled := (hpresented.trans h).step
    (.settle t i serial token.issuedAt (transform token.payload (w.presented t i)).1 _)
  rw [Bool.false_or, Bool.or_false] at hsettled
  rw [validateIn_of_decoded hdecoded]
  exact hsettled

end Decoded

/-- A validation whose token is not decoded only looks it up. -/
theorem validateIn_of_not_decoded (transform : Bytes → World β → Option (β i) × World β)
    (h : ∀ serial token, (w.vault.issuer.present w.clock t i).1 ≠ .decoded serial token) :
    (Issuer.validateIn home t i transform w).2 = w.presented t i := by
  unfold Issuer.validateIn presented
  rcases hpresent : w.vault.issuer.present w.clock t i with ⟨_ | value | ⟨serial, token⟩, issuer⟩
  · rw [show (home.issuer w).present (home.clock w) t i = _ from hpresent]
  · rw [show (home.issuer w).present (home.clock w) t i = _ from hpresent]
  · rw [hpresent] at h
    exact absurd rfl (h serial token)

/-- Whatever comes about in a run may happen meanwhile. -/
theorem Reaches.exists_meanwhile (h : Reaches x y) : ∃ rekeyed, Meanwhile x rekeyed y := by
  induction h with
  | refl w => exact ⟨false, .nothing⟩
  | elsewhere clock rng h ih =>
    obtain ⟨rekeyed, hy⟩ := ih
    exact ⟨_, hy.step (.elsewhere clock rng _)⟩
  | operation o h ih =>
    obtain ⟨rekeyed, hy⟩ := ih
    exact ⟨_, hy.step (.operation o _)⟩
  | @validate x y t i transform htransform h ihtransform ih =>
    -- what the transform does is inserted between the two halves of the validation
    obtain ⟨rekeyed, hy⟩ := ih
    by_cases hdecoded :
        ∃ serial token, (y.vault.issuer.present y.clock t i).1 = .decoded serial token
    · obtain ⟨serial, token, hdecoded⟩ := hdecoded
      obtain ⟨again, hinner⟩ := ihtransform token.payload (y.presented t i)
      exact ⟨_, hy.trans (hinner.validateIn hdecoded transform)⟩
    · push Not at hdecoded
      rw [validateIn_of_not_decoded transform hdecoded]
      exact ⟨_, hy.step (.present t i y)⟩

/-- **A change of keys during a validation leaves no trace.**  Let an issuer be used in any way, and
then a token be validated that is decoded, with a transform that does anything to the vault before
it returns.  The keys are the same installation as before iff they have not been exchanged or
removed meanwhile; that the same master key was put back does not count.

If the keys were touched, or if the transform gives no value, the validation gives none, and leaves
everything as the transform left it.  Otherwise it gives the value of the transform, and remembers
it: among the entries of the cache there is one, put just now, with the value and the time at which
the token was issued.  Such a validation may itself be part of what another transform does. -/
theorem validateIn_exact {policy : TokenPolicy} {start : World β} {before : Bool}
    (hstart : start.vault.issuer = .ofPolicy policy) (hrun : Meanwhile start before w)
    {serial : ℕ} {token : Token.Decoded}
    (hdecoded : (w.vault.issuer.present w.clock t i).1 = .decoded serial token)
    (transform : Bytes → World β → Option (β i) × World β)
    (htransform :
      Meanwhile (w.presented t i) rekeyed (transform token.payload (w.presented t i)).2) :
    let value := (transform token.payload (w.presented t i)).1
    let y := (transform token.payload (w.presented t i)).2
    (rekeyed = false ↔ y.vault.issuer.installed = w.vault.issuer.installed) ∧
    (rekeyed = true → Issuer.validateIn home t i transform w = (none, y)) ∧
    (value = none → Issuer.validateIn home t i transform w = (none, y)) ∧
    (∀ a, rekeyed = false → value = some a →
      Issuer.validateIn home t i transform w =
        (some a, home.place { y.vault.issuer with
          validated := y.vault.issuer.validated.put y.clock.running t.digest
            ⟨⟨i, a⟩, token.issuedAt⟩ } y) ∧
      TimedCache.Entry.mk t.digest (Verdict.mk ⟨i, a⟩ token.issuedAt) y.clock.running ∈
        (Issuer.validateIn home t i transform w).2.vault.issuer.validated.entries) ∧
    Meanwhile w rekeyed (Issuer.validateIn home t i transform w).2 := by
  intro value y
  have hnumbered : w.vault.issuer.Numbered :=
    hrun.later.numbered (hstart ▸ Issuer.numbered_ofPolicy policy)
  refine ⟨?_, ?_, ?_, ?_, htransform.validateIn hdecoded transform⟩
  · obtain ⟨k, hk, -, -, -⟩ := Issuer.present_eq_decoded hdecoded
    exact htransform.rekeyed_eq_false_iff hnumbered hk
  · rintro rfl
    exact validateIn_of_rekeyed hdecoded transform hnumbered htransform
  · intro hnone
    exact validateIn_of_transform_eq_none hdecoded transform hnone
  · rintro a rfl hvalue
    have hkept := validateIn_of_not_rekeyed hdecoded transform hnumbered htransform hvalue
    refine ⟨hkept, ?_⟩
    rw [hkept]
    exact TimedCache.mem_entries_put y.clock.running t.digest _ y.vault.issuer.validated

/-- A token of a standard vault is validated, once in peace, and once while the master key is
removed and put back.  In the former case the value is remembered.  In the latter the keys are equal
to those before, and still nothing is given and nothing remembered. -/
theorem validateIn_exact_of_same_key :
    ∃ (t : TokenHandle) (w : World fun _ : Unit => Bytes),
      let quiet payload (z : World fun _ : Unit => Bytes) := (some payload, z)
      let putBack payload (z : World fun _ : Unit => Bytes) :=
        (some payload, home.place (z.vault.issuer.clear.install ⟨.zeros 32⟩) z)
      (Issuer.validateIn home t () quiet w).1 = some [7] ∧
      TimedCache.Entry.mk t.digest (Verdict.mk ⟨(), [7]⟩ (.ofSeconds 0)) w.clock.running ∈
        (Issuer.validateIn home t () quiet w).2.vault.issuer.validated.entries ∧
      (Issuer.validateIn home t () putBack w).1 = none ∧
      (Issuer.validateIn home t () putBack w).2.vault.tokenKeys? = w.vault.tokenKeys? ∧
      (Issuer.validateIn home t () putBack w).2.vault.issuer.validated.entries = [] := by
  obtain ⟨text, htext⟩ : ∃ text,
      Token.Writes (.derive ⟨.zeros 32⟩) [7] (.ofSeconds 0) (.zeros 16) text :=
    Token.exists_writes_iff.mpr (by decide)
  have hcal : (Timestamp.ofSeconds 0).IsCalendarSecond := ⟨rfl, by decide, by decide⟩
  let start : World fun _ : Unit => Bytes := .blank _
  let w := home.place (start.vault.issuer.install ⟨.zeros 32⟩) start
  refine ⟨.ofText text, w, ?_⟩
  intro quiet putBack
  have hpresent : w.vault.issuer.present w.clock (.ofText text) () = _ :=
    Issuer.present_install_of_decode () (Token.decode_of_writes htext hcal rfl)
  have hdecoded := congrArg Prod.fst hpresent
  have hpresented : w.presented (.ofText text) () = w := by
    rw [presented, hpresent]
    rfl
  have hrun : Meanwhile start true w := Meanwhile.nothing.step (.install ⟨.zeros 32⟩ start)
  obtain ⟨-, -, -, hgives, -⟩ := validateIn_exact rfl hrun hdecoded quiet .nothing
  obtain ⟨-, hdiscards, -⟩ := validateIn_exact rfl hrun hdecoded putBack
    ((Meanwhile.nothing.step (.clear _)).step (.install ⟨.zeros 32⟩ _))
  obtain ⟨hkept, hmem⟩ := hgives [7] rfl rfl
  rw [hdiscards rfl, hpresented]
  exact ⟨congrArg Prod.fst hkept, hmem, rfl, rfl, rfl⟩

end World

end QuorumVault
