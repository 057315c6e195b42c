import Mathlib.Tactic
import QuorumVault.Proofs.Token.Format
import QuorumVault.Proofs.Token.Issuer
import QuorumVault.Proofs.Token.TimedCache

/-!
# How verdicts are reached

All that an issuer can answer when a token is presented is listed in `Issuer.valid_cases` and
`Issuer.present_cases`, with the verdicts that it remembers afterwards (`Issuer.Checks`): those that
it remembered before or fewer, and in addition that the token was refused if the check of the token
failed, or if a remembered verdict on it had aged out.  A value that has been remembered is given
again in time (`Issuer.present_of_settle`).
-/

namespace QuorumVault

/-! ### Tokens as time passes -/

namespace Token

variable {keys : TokenKeys} {text : String} {now earlier : Timestamp}
  {maxAge maxAge' : Option Duration} {token : Decoded} {fault : TokenFault}

theorem checkAge_none_of_le {issued : Timestamp} (h : issued.seconds ≤ now.seconds) :
    checkAge issued now none = .ok () := by
  have hage : 0 ≤ age issued now := by
    rw [age]
    omega
  rw [checkAge, if_neg fun hearly => Int.not_lt.mpr hage hearly.1]

/-- What is verified of a text does not depend on when it is verified. -/
theorem verify_unique {a b : Verified} (ha : verify keys text now maxAge = .ok a)
    (hb : verify keys text earlier maxAge' = .ok b) : a = b := by
  obtain ⟨hacal, -, harest⟩ := verify_eq_ok_iff.mp ha
  obtain ⟨hbcal, -, hbrest⟩ := verify_eq_ok_iff.mp hb
  -- both are verified at the later of the two times of issue
  let late := Timestamp.ofSeconds (max a.issuedAt.seconds b.issuedAt.seconds)
  have ha' : verify keys text late none = .ok a :=
    verify_eq_ok_iff.mpr ⟨hacal, checkAge_none_of_le (le_max_left _ _), harest⟩
  have hb' : verify keys text late none = .ok b :=
    verify_eq_ok_iff.mpr ⟨hbcal, checkAge_none_of_le (le_max_right _ _), hbrest⟩
  exact Except.ok.inj (ha'.symm.trans hb')

theorem decode_of_verify_eq_error (h : verify keys text now maxAge = .error fault) :
    decode keys text now maxAge = .error fault := by
  rw [decode, h]

/-- A text that was decoded at one time is decoded whenever the age of the token is allowed. -/
theorem decode_of_checkAge (h : decode keys text earlier maxAge = .ok token)
    (hage : checkAge token.issuedAt now maxAge = .ok ()) :
    decode keys text now maxAge = .ok token := by
  obtain ⟨hcal, -, hwritten⟩ := decode_eq_ok_iff.mp h
  exact decode_eq_ok_iff.mpr ⟨hcal, hage, hwritten⟩

theorem issuedAt_of_decode (h : decode keys text now maxAge = .ok token) :
    ∃ box, verify keys text now maxAge = .ok ⟨token.issuedAt, box⟩ := by
  unfold decode at h
  split at h
  · cases h
  · rename_i verified hverified
    split at h
    · cases h
      exact ⟨verified.box, hverified⟩
    · cases h

/-- A text that was decoded at one time is refused when the age of the token is not allowed. -/
theorem verify_of_checkAge_eq_error (h : decode keys text earlier maxAge = .ok token)
    (hage : checkAge token.issuedAt now maxAge = .error fault) :
    ∃ fault, verify keys text now maxAge = .error fault := by
  obtain ⟨box, hbox⟩ := issuedAt_of_decode h
  cases hnow : verify keys text now maxAge with
  | error fault => exact ⟨fault, rfl⟩
  | ok verified =>
    obtain rfl := verify_unique hnow hbox
    obtain ⟨-, hallowed, -⟩ := verify_eq_ok_iff.mp hnow
    rw [hage] at hallowed
    cases hallowed

end Token

namespace Issuer

variable {ι : Type} {β : ι → Type} {now : Clock} {h : TokenHandle} {a b c : Issuer β}
  {refuted : Prop}

theorem SameButVerdicts.ttl_validated (h : SameButVerdicts a b) :
    b.validated.ttl = a.validated.ttl :=
  show b.validated.clear.ttl = a.validated.clear.ttl from congrArg TimedCache.ttl h.validated

theorem SameButVerdicts.ttl_rejected (h : SameButVerdicts a b) :
    b.rejected.ttl = a.rejected.ttl :=
  show b.rejected.clear.ttl = a.rejected.clear.ttl from congrArg TimedCache.ttl h.rejected

/-! ### What is remembered -/

/-- A verdict on a token is remembered, and its lifetime has not passed. -/
def Remembers (now : Clock) (h : TokenHandle) (verdict : Verdict β) (a : Issuer β) : Prop :=
  ∃ e ∈ a.validated.entries,
    e.key = h.digest ∧ e.value = verdict ∧ a.validated.isLive now.running e = true

/-- A payload is remembered of a token whose age is still allowed. -/
def Serves (now : Clock) (h : TokenHandle) (payload : Sigma β) (a : Issuer β) : Prop :=
  ∃ verdict, a.Remembers now h verdict ∧
    Token.checkAge verdict.issuedAt now.wall a.maxAge = .ok () ∧ verdict.payload = payload

/-- A verdict is remembered on a token whose age is no longer allowed. -/
def AgedOut (now : Clock) (h : TokenHandle) (a : Issuer β) : Prop :=
  ∃ verdict fault, a.Remembers now h verdict ∧
    Token.checkAge verdict.issuedAt now.wall a.maxAge = .error fault

/-- After a token was checked, no verdict is remembered that was not before, except that the token
is remembered as refused if it was refuted. -/
structure Checks (now : Clock) (h : TokenHandle) (refuted : Prop) (a b : Issuer β) : Prop where
  sameButVerdicts : SameButVerdicts a b
  validated : ∀ e ∈ b.validated.entries, e ∈ a.validated.entries
  rejected : ∀ e ∈ b.rejected.entries,
    e ∈ a.rejected.entries ∨ refuted ∧ e = ⟨h.digest, (), now.running⟩

namespace Checks

theorem refl (now : Clock) (h : TokenHandle) (refuted : Prop) (a : Issuer β) :
    Checks now h refuted a a :=
  ⟨.refl a, fun _ he => he, fun _ he => .inl he⟩

theorem trans (hab : Checks now h refuted a b) (hbc : Checks now h refuted b c) :
    Checks now h refuted a c where
  sameButVerdicts := hab.sameButVerdicts.trans hbc.sameButVerdicts
  validated e he := hab.validated e (hbc.validated e he)
  rejected e he := by
    rcases hbc.rejected e he with he | he
    · exact hab.rejected e he
    · exact .inr he

theorem imp {refuted' : Prop} (hrefuted : refuted → refuted') (hab : Checks now h refuted a b) :
    Checks now h refuted' a b where
  sameButVerdicts := hab.sameButVerdicts
  validated := hab.validated
  rejected e he := (hab.rejected e he).imp_right (And.imp_left hrefuted)

theorem erase (h' : TokenHandle) (a : Issuer β) :
    Checks now h refuted a { a with validated := a.validated.erase h'.digest } where
  sameButVerdicts := ⟨rfl, rfl, rfl, rfl, rfl⟩
  validated _ he := (TimedCache.mem_entries_erase.mp he).1
  rejected _ he := .inl he

theorem reject (hrefuted : refuted) (a : Issuer β) :
    Checks now h refuted a (a.reject now h) where
  sameButVerdicts := sameButVerdicts_reject now h a
  validated _ he := he
  rejected _ he := by
    rcases TimedCache.eq_or_mem_entries_put he with rfl | he
    · exact .inr ⟨hrefuted, rfl⟩
    · exact .inl he

theorem rejectUnder (hrefuted : refuted) (serial : ℕ) (a : Issuer β) :
    Checks now h refuted a (a.rejectUnder serial now h) := by
  unfold Issuer.rejectUnder
  split
  · exact reject hrefuted a
  · exact refl now h refuted a

end Checks

/-! ### Looking a token up -/

/-- Looking a token up gives its payload, or nothing; then a verdict on it may have aged out. -/
theorem remembered_cases (now : Clock) (h : TokenHandle) (a : Issuer β) :
    (∃ payload b, a.Serves now h payload ∧ Checks now h False a b ∧
        a.remembered now h = (some payload, b)) ∨
      ∃ b, Checks now h (a.AgedOut now h) a b ∧ a.remembered now h = (none, b) := by
  have hgot : ∀ refuted, Checks now h refuted a
      { a with validated := (a.validated.get now.running h.digest).2 } := fun refuted =>
    ⟨⟨rfl, rfl, rfl, TimedCache.clear_get _ _ _, rfl⟩,
      fun _ he => TimedCache.mem_entries_of_get he, fun _ he => .inl he⟩
  unfold remembered
  split
  · rename_i cache hget
    rw [hget] at hgot
    exact .inr ⟨_, hgot _, rfl⟩
  · rename_i verdict cache hget
    have hremembers : a.Remembers now h verdict :=
      TimedCache.exists_entry_of_get (by rw [hget])
    rw [hget] at hgot
    split
    · rename_i hage
      exact .inl ⟨verdict.payload, _, ⟨verdict, hremembers, hage, rfl⟩, hgot _, rfl⟩
    · rename_i fault hage
      refine .inr ⟨_, ?_, rfl⟩
      exact ((hgot _).trans (Checks.erase h _)).trans
        (Checks.reject ⟨verdict, fault, hremembers, hage⟩ _)

/-- A token that is remembered as refused is refused again, and nothing else changes. -/
theorem valid_of_contains (hrejected : a.rejected.contains now.running h.digest = true) :
    a.valid now h = (false, a) := by
  unfold valid
  split
  · rfl
  · rw [if_pos hrejected]

theorem valid_cases (now : Clock) (h : TokenHandle) (a : Issuer β) :
    (a.installed = none ∧ a.valid now h = (false, a)) ∨
      ∃ i, a.installed = some i ∧
        ((a.rejected.contains now.running h.digest = true ∧ a.valid now h = (false, a)) ∨
          a.rejected.contains now.running h.digest = false ∧
            ((∃ payload b, a.Serves now h payload ∧ Checks now h False a b ∧
                a.valid now h = (true, b)) ∨
              (∃ verified b, Token.verify i.keys h.text now.wall a.maxAge = .ok verified ∧
                Checks now h (a.AgedOut now h) a b ∧ a.valid now h = (true, b)) ∨
              ∃ fault b, Token.verify i.keys h.text now.wall a.maxAge = .error fault ∧
                Checks now h True a b ∧ a.valid now h = (false, b))) := by
  unfold valid
  cases hinstalled : a.installed with
  | none => exact .inl ⟨rfl, rfl⟩
  | some i =>
    refine .inr ⟨i, rfl, ?_⟩
    dsimp only
    cases hrejected : a.rejected.contains now.running h.digest with
    | true => exact .inl ⟨rfl, rfl⟩
    | false =>
      refine .inr ⟨rfl, ?_⟩
      rw [if_neg Bool.false_ne_true]
      rcases remembered_cases now h a with ⟨payload, b, hserves, hchecks, hb⟩ | ⟨b, hchecks, hb⟩
      · rw [hb]
        exact .inl ⟨payload, b, hserves, hchecks, rfl⟩
      · rw [hb]
        dsimp only
        rw [hchecks.sameButVerdicts.maxAge]
        cases hverify : Token.verify i.keys h.text now.wall a.maxAge with
        | ok verified => exact .inr (.inl ⟨verified, b, rfl, hchecks, rfl⟩)
        | error fault =>
          refine .inr (.inr ⟨fault, _, rfl, ?_, rfl⟩)
          exact (hchecks.imp fun _ => trivial).trans (Checks.rejectUnder trivial i.serial b)

/-- A token is decoded, or it is refused and may then be remembered as such. -/
theorem open?_cases (installation : Installation) (now : Clock) (h : TokenHandle) (i : ι)
    (a : Issuer β) :
    (∃ token, Token.decode installation.keys h.text now.wall a.maxAge = .ok token ∧
        a.open? installation now h i = (.decoded installation.serial token, a)) ∨
      ∃ fault b, Token.decode installation.keys h.text now.wall a.maxAge = .error fault ∧
        Checks now h True a b ∧ a.open? installation now h i = (.refused, b) := by
  unfold open?
  cases hdecode : Token.decode installation.keys h.text now.wall a.maxAge with
  | ok token => exact .inl ⟨token, rfl, rfl⟩
  | error fault =>
    exact .inr ⟨fault, _, rfl, Checks.rejectUnder trivial installation.serial a, rfl⟩

theorem ofType?_eq_some_iff [DecidableEq ι] {i : ι} {payload : Sigma β} {value : β i} :
    ofType? i payload = some value ↔ payload = ⟨i, value⟩ := by
  obtain ⟨j, content⟩ := payload
  unfold ofType?
  constructor
  · intro hvalue
    split at hvalue
    · rename_i hij
      obtain rfl : j = i := hij
      exact congrArg (Sigma.mk j) (Option.some.inj hvalue)
    · cases hvalue
  · rintro ⟨⟩
    rw [dif_pos rfl]

theorem present_cases [DecidableEq ι] (now : Clock) (h : TokenHandle) (i : ι) (a : Issuer β) :
    (a.installed = none ∧ a.present now h i = (.refused, a)) ∨
      ∃ installation, a.installed = some installation ∧
        ((a.rejected.contains now.running h.digest = true ∧ a.present now h i = (.refused, a)) ∨
          a.rejected.contains now.running h.digest = false ∧
            ((∃ value b, a.Serves now h ⟨i, value⟩ ∧ Checks now h False a b ∧
                a.present now h i = (.remembered value, b)) ∨
              (∃ token b, Token.decode installation.keys h.text now.wall a.maxAge = .ok token ∧
                Checks now h (a.AgedOut now h) a b ∧
                a.present now h i = (.decoded installation.serial token, b)) ∨
              ∃ fault b, Token.decode installation.keys h.text now.wall a.maxAge = .error fault ∧
                Checks now h True a b ∧ a.present now h i = (.refused, b))) := by
  unfold present
  cases hinstalled : a.installed with
  | none => exact .inl ⟨rfl, rfl⟩
  | some installation =>
    refine .inr ⟨installation, rfl, ?_⟩
    dsimp only
    cases hrejected : a.rejected.contains now.running h.digest with
    | true => exact .inl ⟨rfl, rfl⟩
    | false =>
      refine .inr ⟨rfl, ?_⟩
      rw [if_neg Bool.false_ne_true]
      -- whatever is left after looking up, decoding goes on from there
      have hopen (b : Issuer β) (hchecks : Checks now h (a.AgedOut now h) a b) :
          (∃ token c, Token.decode installation.keys h.text now.wall a.maxAge = .ok token ∧
              Checks now h (a.AgedOut now h) a c ∧
              b.open? installation now h i = (.decoded installation.serial token, c)) ∨
            ∃ fault c, Token.decode installation.keys h.text now.wall a.maxAge = .error fault ∧
              Checks now h True a c ∧ b.open? installation now h i = (.refused, c) := by
        have hcases := open?_cases installation now h i b
        rw [hchecks.sameButVerdicts.maxAge] at hcases
        rcases hcases with ⟨token, hdecode, hb⟩ | ⟨fault, c, hdecode, hrefused, hb⟩
        · exact .inl ⟨token, b, hdecode, hchecks, hb⟩
        · exact .inr ⟨fault, c, hdecode, (hchecks.imp fun _ => trivial).trans hrefused, hb⟩
      rcases remembered_cases now h a with ⟨payload, b, hserves, hchecks, hb⟩ | ⟨b, hchecks, hb⟩
      · rw [hb]
        dsimp only
        cases htype : ofType? i payload with
        | some value =>
          rw [ofType?_eq_some_iff.mp htype] at hserves
          exact .inl ⟨value, b, hserves, hchecks, rfl⟩
        | none =>
          have herased := hchecks.trans (Checks.erase h b)
          exact .inr (hopen _ (herased.imp False.elim))
      · rw [hb]
        exact .inr (hopen b hchecks)

/-- The value of a remembered verdict is given for as long as the age of the token is allowed. -/
theorem present_of_get [DecidableEq ι] {i : ι} {value : β i} {issuedAt : Timestamp}
    {installation : Installation} (hinstalled : a.installed = some installation)
    (hrejected : a.rejected.contains now.running h.digest = false)
    (hget : (a.validated.get now.running h.digest).1 = some ⟨⟨i, value⟩, issuedAt⟩)
    (hage : Token.checkAge issuedAt now.wall a.maxAge = .ok ()) :
    (a.valid now h).1 = true ∧ (a.present now h i).1 = .remembered value := by
  have hremembered : ∃ b, a.remembered now h = (some ⟨i, value⟩, b) := by
    unfold remembered
    rcases hfound : a.validated.get now.running h.digest with ⟨found, cache⟩
    rw [hfound] at hget
    obtain rfl : found = some ⟨⟨i, value⟩, issuedAt⟩ := hget
    dsimp only
    rw [hage]
    exact ⟨_, rfl⟩
  obtain ⟨b, hb⟩ := hremembered
  have htype : ofType? i (⟨i, value⟩ : Sigma β) = some value := ofType?_eq_some_iff.mpr rfl
  constructor
  · simp only [valid, hinstalled, hrejected, hb, Bool.false_eq_true, if_false]
  · simp only [present, hinstalled, hrejected, hb, htype, Bool.false_eq_true, if_false]

/-- A token gets as far as being decoded only if it is decoded under the installed keys. -/
theorem present_eq_decoded [DecidableEq ι] {i : ι} {serial : ℕ} {token : Token.Decoded}
    (hdecoded : (a.present now h i).1 = .decoded serial token) :
    ∃ installation, a.installed = some installation ∧ installation.serial = serial ∧
      Token.decode installation.keys h.text now.wall a.maxAge = .ok token ∧
      Checks now h (a.AgedOut now h) a (a.present now h i).2 := by
  rcases present_cases now h i a with
    ⟨-, hp⟩ | ⟨installation, hinstalled, ⟨-, hp⟩ | ⟨-, ⟨_, _, -, -, hp⟩ |
      ⟨token, b, hdecode, hchecks, hp⟩ | ⟨_, _, -, -, hp⟩⟩⟩
  all_goals rw [hp] at hdecoded; cases hdecoded
  rw [hp]
  exact ⟨installation, hinstalled, rfl, hdecode, hchecks⟩

/-- Just after keys are installed, tokens are decoded or refused for their text alone. -/
theorem present_install_of_decode [DecidableEq ι] {master : SecretKey} {token : Token.Decoded}
    (i : ι)
    (hdecode : Token.decode (TokenKeys.derive master) h.text now.wall a.maxAge = .ok token) :
    (a.install master).present now h i = (.decoded a.installations token, a.install master) := by
  simp only [present, install, installKeys, TimedCache.contains_clear, remembered,
    TimedCache.get_clear, open?, hdecode]
  rfl

/-- A value is remembered if the installation is still in place, and then it is given. -/
theorem settle_cases (now : Clock) (h : TokenHandle) (i : ι) (serial : ℕ) (issuedAt : Timestamp)
    (value : Option (β i)) (a : Issuer β) :
    (∃ v, value = some v ∧ a.isCurrent serial = true ∧
        a.settle now h i serial issuedAt value =
          (some v, { a with
            validated := a.validated.put now.running h.digest ⟨⟨i, v⟩, issuedAt⟩ })) ∨
      ((value = none ∨ a.isCurrent serial = false) ∧
        a.settle now h i serial issuedAt value = (none, a)) := by
  unfold settle
  cases value with
  | none => exact .inr ⟨.inl rfl, rfl⟩
  | some v =>
    cases hcurrent : a.isCurrent serial with
    | true => exact .inl ⟨v, rfl, rfl, rfl⟩
    | false => exact .inr ⟨.inr rfl, rfl⟩

theorem isCurrent_iff {serial : ℕ} :
    a.isCurrent serial = true ↔ ∃ installation, a.installed = some installation ∧
      installation.serial = serial := by
  unfold isCurrent
  cases a.installed with
  | none => simp
  | some installation => simp

/-- A value that has been remembered is given until the lifetime of verdicts has passed, for as long
as the age of the token is allowed and the token is not remembered as refused. -/
theorem present_of_settle [DecidableEq ι] {i : ι} {value : β i} {serial : ℕ} {issuedAt : Timestamp}
    {later : Clock} (hb : b = (a.settle now h i serial issuedAt (some value)).2)
    (hcurrent : a.isCurrent serial = true)
    (hrejected : a.rejected.contains later.running h.digest = false)
    (hlive : later.running.nanos - now.running.nanos < a.validated.ttl.nanos)
    (hage : Token.checkAge issuedAt later.wall a.maxAge = .ok ()) :
    (b.valid later h).1 = true ∧ (b.present later h i).1 = .remembered value := by
  obtain ⟨installation, hinstalled, -⟩ := isCurrent_iff.mp hcurrent
  rw [settle, if_pos hcurrent] at hb
  rw [hb]
  exact present_of_get hinstalled hrejected (TimedCache.get_put a.validated hlive) hage

end Issuer

end QuorumVault
