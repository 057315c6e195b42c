import Mathlib.Tactic
import QuorumVault.Proofs.Token.Format
import QuorumVault.Token.Issuer

/-!
# What validation changes

Validating tokens changes nothing of an issuer but the verdicts that it remembers
(`Issuer.SameButVerdicts`), and nothing at all while no keys are installed.  Just after keys are
installed, every token that was made under them is accepted (`Issuer.valid_install_of_writes`).
-/

namespace QuorumVault

/-! ### Caches without their entries -/

namespace TimedCache

variable {κ α : Type} [DecidableEq κ]

@[simp] theorem clear_get (now : Duration) (key : κ) (c : TimedCache κ α) :
    (c.get now key).2.clear = c.clear := by
  unfold get
  split
  · rfl
  · split
    · rfl
    · rfl

theorem contains_clear (now : Duration) (key : κ) (c : TimedCache κ α) :
    c.clear.contains now key = false := rfl

theorem get_clear (now : Duration) (key : κ) (c : TimedCache κ α) :
    c.clear.get now key = (none, c.clear) := rfl

end TimedCache

namespace Issuer

variable {ι : Type} {β : ι → Type} {a b c : Issuer β}

/-! ### Issuers that differ in their verdicts -/

/-- Nothing but the entries of the caches differs. -/
structure SameButVerdicts (a b : Issuer β) : Prop where
  maxAge : b.maxAge = a.maxAge
  installed : b.installed = a.installed
  installations : b.installations = a.installations
  validated : b.validated.clear = a.validated.clear
  rejected : b.rejected.clear = a.rejected.clear

namespace SameButVerdicts

theorem refl (a : Issuer β) : SameButVerdicts a a := ⟨rfl, rfl, rfl, rfl, rfl⟩

theorem trans (hab : SameButVerdicts a b) (hbc : SameButVerdicts b c) : SameButVerdicts a c where
  maxAge := hbc.maxAge.trans hab.maxAge
  installed := hbc.installed.trans hab.installed
  installations := hbc.installations.trans hab.installations
  validated := hbc.validated.trans hab.validated
  rejected := hbc.rejected.trans hab.rejected

theorem clear_eq (h : SameButVerdicts a b) : b.clear = a.clear := by
  rw [clear, clear, h.maxAge, h.installations, h.validated, h.rejected]

end SameButVerdicts

theorem clear_install (master : SecretKey) (a : Issuer β) :
    (a.install master).clear = { a.clear with installations := a.installations + 1 } := rfl

/-! ### Verdicts -/

theorem sameButVerdicts_reject (now : Clock) (h : TokenHandle) (a : Issuer β) :
    SameButVerdicts a (a.reject now h) := ⟨rfl, rfl, rfl, rfl, rfl⟩

theorem sameButVerdicts_rejectUnder (serial : ℕ) (now : Clock) (h : TokenHandle) (a : Issuer β) :
    SameButVerdicts a (a.rejectUnder serial now h) := by
  unfold rejectUnder
  split
  · exact sameButVerdicts_reject now h a
  · exact .refl a

theorem sameButVerdicts_remembered (now : Clock) (h : TokenHandle) (a : Issuer β) :
    SameButVerdicts a (a.remembered now h).2 := by
  have hclear := TimedCache.clear_get now.running h.digest a.validated
  unfold remembered
  split
  · rename_i cache hget
    rw [hget] at hclear
    exact ⟨rfl, rfl, rfl, hclear, rfl⟩
  · rename_i verdict cache hget
    rw [hget] at hclear
    split
    · exact ⟨rfl, rfl, rfl, hclear, rfl⟩
    · exact ⟨rfl, rfl, rfl, hclear, rfl⟩

theorem sameButVerdicts_valid (now : Clock) (h : TokenHandle) (a : Issuer β) :
    SameButVerdicts a (a.valid now h).2 := by
  have hremembered := sameButVerdicts_remembered now h a
  unfold valid
  split
  · exact .refl a
  · rename_i i hi
    split
    · exact .refl a
    · split
      · rename_i payload b hb
        rwa [hb] at hremembered
      · rename_i b hb
        rw [hb] at hremembered
        split
        · exact hremembered
        · exact hremembered.trans (sameButVerdicts_rejectUnder i.serial now h b)

theorem sameButVerdicts_open? (installation : Installation) (now : Clock) (h : TokenHandle)
    (i : ι) (a : Issuer β) : SameButVerdicts a (a.open? installation now h i).2 := by
  unfold open?
  split
  · exact .refl a
  · exact sameButVerdicts_rejectUnder _ now h a

theorem sameButVerdicts_present [DecidableEq ι] (now : Clock) (h : TokenHandle) (i : ι)
    (a : Issuer β) : SameButVerdicts a (a.present now h i).2 := by
  have hremembered := sameButVerdicts_remembered now h a
  unfold present
  split
  · exact .refl a
  · rename_i installation hinstallation
    split
    · exact .refl a
    · split
      · rename_i b hb
        rw [hb] at hremembered
        exact hremembered.trans (sameButVerdicts_open? installation now h i b)
      · rename_i payload b hb
        rw [hb] at hremembered
        split
        · exact hremembered
        · have herase : SameButVerdicts b { b with validated := b.validated.erase h.digest } :=
            ⟨rfl, rfl, rfl, rfl, rfl⟩
          exact (hremembered.trans herase).trans (sameButVerdicts_open? installation now h i _)

theorem sameButVerdicts_settle (now : Clock) (h : TokenHandle) (i : ι) (serial : ℕ)
    (issuedAt : Timestamp) (value : Option (β i)) (a : Issuer β) :
    SameButVerdicts a (a.settle now h i serial issuedAt value).2 := by
  unfold settle
  split
  · exact .refl a
  · split
    · exact ⟨rfl, rfl, rfl, rfl, rfl⟩
    · exact .refl a

/-! ### Without keys -/

theorem valid_of_installed_eq_none (h : a.installed = none) (now : Clock) (t : TokenHandle) :
    a.valid now t = (false, a) := by
  rw [valid, h]

theorem present_of_installed_eq_none [DecidableEq ι] (h : a.installed = none) (now : Clock)
    (t : TokenHandle) (i : ι) : a.present now t i = (.refused, a) := by
  rw [present, h]

theorem settle_of_installed_eq_none (h : a.installed = none) (now : Clock) (t : TokenHandle)
    (i : ι) (serial : ℕ) (issuedAt : Timestamp) (value : Option (β i)) :
    a.settle now t i serial issuedAt value = (none, a) := by
  unfold settle
  split
  · rfl
  · rw [isCurrent, h]
    rfl

/-! ### Without verdicts -/

/-- Just after keys are installed, every token that was made under them is accepted while its age is
allowed. -/
theorem valid_install_of_writes {master : SecretKey} {payload : Bytes} {stamp : Timestamp}
    {iv : Octets 16} {h : TokenHandle} {now : Clock} {a : Issuer β}
    (hwrites : Token.Writes (TokenKeys.derive master) payload stamp iv h.text)
    (hcal : (Timestamp.ofSeconds stamp.seconds).IsCalendarSecond)
    (hage : Token.checkAge stamp now.wall a.maxAge = .ok ()) :
    ((a.install master).valid now h).1 = true := by
  obtain ⟨verified, hverify⟩ :=
    Token.exists_verify_of_decode (Token.decode_of_writes hwrites hcal hage)
  simp only [valid, install, installKeys, remembered, TimedCache.contains_clear,
    TimedCache.get_clear, hverify]
  rfl

end Issuer

end QuorumVault
