import Mathlib.Tactic
import QuorumVault.Proofs.Time.Rfc3339
import QuorumVault.Proofs.Token.Acceptance
import QuorumVault.Proofs.Token.Verifying

/-!
# The window in which a token is accepted

The age of a token is the difference of two times of the calendar, which is far from the ends of 64
bits (`Token.age_eq_sub`).  The age is therefore allowed exactly in an interval of whole seconds:
from a minute before the issue of the token until its lifetime has gone by (`Token.window`).  A
genuine token is verified in this window and at no other time, and one that is too old stays so,
also for an issuer that remembers having accepted it.

The main result is `Token.checkAge_exact`.
-/

namespace QuorumVault

/-! ### Times of the calendar -/

namespace Timestamp

/-- The nanoseconds since the beginning of 1970, below zero before it. -/
def sinceEpoch (t : Timestamp) : ℤ := t.seconds * 1000000000 + t.nanos

/-- The seconds are rounded down, also before 1970. -/
theorem seconds_eq_sinceEpoch_div {t : Timestamp} (h : t.nanos < 1000000000) :
    t.seconds = t.sinceEpoch / 1000000000 := by
  rw [sinceEpoch]
  omega

theorem IsCalendarSecond.inCalendar {t : Timestamp} (h : t.IsCalendarSecond) : t.InCalendar := h.2

end Timestamp

namespace Token

variable {keys : TokenKeys} {text : String} {issued now later earlier : Timestamp}
  {maxAge maxAge' : Option Duration} {a : Verified}

/-! ### The age of a token -/

/-- The age of a token is not cut off at the ends of 64 bits. -/
theorem age_eq_sub (hissued : issued.InCalendar) (hnow : now.InCalendar) :
    age issued now = now.seconds - issued.seconds := by
  unfold Timestamp.InCalendar Timestamp.minSeconds Timestamp.maxSeconds at hissued hnow
  rw [age]
  omega

/-- The whole seconds in which the age of a token is allowed. -/
def window (issued : Timestamp) : Option Duration → Set ℤ
  | none => Set.Ici (issued.seconds - 60)
  | some limit => Set.Icc (issued.seconds - 60) (issued.seconds + limit.seconds)

/-- The time is before the window, or after it, or in it. -/
theorem checkAge_cases (hissued : issued.InCalendar) (hnow : now.InCalendar)
    (maxAge : Option Duration) :
    (60 < issued.seconds - now.seconds ∧ checkAge issued now maxAge = .error .notYetValid) ∨
      (issued.seconds - now.seconds ≤ 60 ∧
        (∃ limit, maxAge = some limit ∧ (limit.seconds : ℤ) < now.seconds - issued.seconds) ∧
        checkAge issued now maxAge = .error .expired) ∨
      now.seconds ∈ window issued maxAge ∧ checkAge issued now maxAge = .ok () := by
  have hskew : maxSkew.seconds = 60 := rfl
  unfold checkAge
  dsimp only
  rw [age_eq_sub hissued hnow, hskew]
  by_cases hearly : 60 < issued.seconds - now.seconds
  · refine .inl ⟨hearly, if_pos ?_⟩
    omega
  right
  have hstarted : issued.seconds - now.seconds ≤ 60 := Int.not_lt.mp hearly
  rw [if_neg (by omega)]
  cases maxAge with
  | none =>
    right
    refine ⟨?_, rfl⟩
    rw [window, Set.mem_Ici]
    omega
  | some limit =>
    by_cases hold : (limit.seconds : ℤ) < now.seconds - issued.seconds
    · refine .inl ⟨hstarted, ⟨limit, rfl, hold⟩, if_pos ?_⟩
      omega
    · refine .inr ⟨?_, if_neg ?_⟩
      · rw [window, Set.mem_Icc]
        omega
      · omega

theorem not_mem_window_of_early (h : 60 < issued.seconds - now.seconds) :
    now.seconds ∉ window issued maxAge := by
  cases maxAge with
  | none =>
    rw [window, Set.mem_Ici]
    omega
  | some limit =>
    rw [window, Set.mem_Icc]
    omega

theorem checkAge_eq_notYetValid_iff (hissued : issued.InCalendar) (hnow : now.InCalendar) :
    checkAge issued now maxAge = .error .notYetValid ↔ 60 < issued.seconds - now.seconds := by
  rcases checkAge_cases hissued hnow maxAge with ⟨hearly, h⟩ | ⟨hstarted, -, h⟩ | ⟨hin, h⟩
  · exact iff_of_true h hearly
  · refine iff_of_false ?_ (Int.not_lt.mpr hstarted)
    rw [h]
    simp
  · refine iff_of_false ?_ fun hearly => not_mem_window_of_early hearly hin
    rw [h]
    simp

theorem checkAge_eq_ok_iff (hissued : issued.InCalendar) (hnow : now.InCalendar) :
    checkAge issued now maxAge = .ok () ↔ now.seconds ∈ window issued maxAge := by
  rcases checkAge_cases hissued hnow maxAge with
    ⟨hearly, h⟩ | ⟨-, ⟨limit, rfl, hold⟩, h⟩ | ⟨hin, h⟩
  · refine iff_of_false ?_ (not_mem_window_of_early hearly)
    rw [h]
    simp
  · refine iff_of_false ?_ ?_
    · rw [h]
      simp
    · rw [window, Set.mem_Icc]
      omega
  · exact iff_of_true h hin

theorem checkAge_eq_expired_iff (hissued : issued.InCalendar) (hnow : now.InCalendar) :
    checkAge issued now maxAge = .error .expired ↔ issued.seconds - now.seconds ≤ 60 ∧
      ∃ limit, maxAge = some limit ∧ (limit.seconds : ℤ) < now.seconds - issued.seconds := by
  rcases checkAge_cases hissued hnow maxAge with ⟨hearly, h⟩ | ⟨hstarted, hold, h⟩ | ⟨hin, h⟩
  · refine iff_of_false ?_ fun hexpired => Int.not_le.mpr hearly hexpired.1
    rw [h]
    simp
  · exact iff_of_true h ⟨hstarted, hold⟩
  · refine iff_of_false ?_ ?_
    · rw [h]
      simp
    · rintro ⟨-, limit, rfl, hold⟩
      rw [window, Set.mem_Icc] at hin
      omega

/-! ### Tokens as the clock runs on -/

/-- A token that is too old stays so. -/
theorem checkAge_expired_of_le (hle : now.seconds ≤ later.seconds)
    (h : checkAge issued now maxAge = .error .expired) :
    checkAge issued later maxAge = .error .expired := by
  have hmono : age issued now ≤ age issued later := by
    unfold age
    omega
  unfold checkAge at h ⊢
  dsimp only at h ⊢
  split_ifs at h with hearly
  · cases h
  cases maxAge with
  | none => cases h
  | some limit =>
    dsimp only at h ⊢
    split_ifs at h with hold
    rw [if_neg (by omega), if_pos (by omega)]

/-- Of a text that is verified at one time, only the age is left to check at any other. -/
theorem verify_eq_map_checkAge (h : verify keys text earlier maxAge' = .ok a) (now : Timestamp)
    (maxAge : Option Duration) :
    a.issuedAt.IsCalendarSecond ∧
      verify keys text now maxAge = (checkAge a.issuedAt now maxAge).map fun _ => a := by
  cases verify_eq_iff_judged.mp h with
  | passed hgenuine hcalendar hage =>
    exact ⟨hcalendar, Parts.verify_text_of_genuine hgenuine hcalendar now maxAge⟩

/-- A genuine token is verified in its window and at no other time. -/
theorem exists_verify_iff (h : verify keys text earlier maxAge' = .ok a) (hnow : now.InCalendar) :
    (∃ b, verify keys text now maxAge = .ok b) ↔ now.seconds ∈ window a.issuedAt maxAge := by
  obtain ⟨hissued, hverify⟩ := verify_eq_map_checkAge h now maxAge
  rw [hverify, ← checkAge_eq_ok_iff hissued.inCalendar hnow]
  cases checkAge a.issuedAt now maxAge with
  | error fault => simp [Except.map]
  | ok => simp [Except.map]

theorem verify_expired_of_le (hle : now.seconds ≤ later.seconds)
    (h : verify keys text now maxAge = .error .expired) :
    verify keys text later maxAge = .error .expired := by
  generalize hresult : (Except.error .expired : Except TokenFault Verified) = result at h
  cases verify_eq_iff_judged.mp h with
  | age hgenuine hcalendar hage =>
    cases hresult
    exact Judged.verify_eq (.age hgenuine hcalendar (checkAge_expired_of_le hle hage))
  | _ => cases hresult

end Token

/-- A token that is too old is not accepted any more, whatever the issuer remembers of it. -/
theorem Desk.Backed.refuses_expired {ι : Type} [DecidableEq ι] {β : ι → Type}
    {policy : TokenPolicy} {presented : Set TokenHandle} {t : TokenHandle} {w : Desk β}
    {installation : Installation} {earlier : Timestamp} (hw : Backed policy presented w)
    (hpresented : presented.InjOn TokenHandle.digest) (ht : t ∈ presented)
    (hinstalled : w.issuer.installed = some installation)
    (hle : earlier.seconds ≤ w.clock.wall.seconds)
    (hexpired : Token.verify installation.keys t.text earlier policy.maxAge = .error .expired) :
    (w.valid t).1 = false ∧
      ∀ (i : ι) (transform : Bytes → Desk β → Option (β i) × Desk β),
        Acts presented transform (w.enter t i) → (w.validate t i transform).1 = none := by
  have hnow := Token.verify_expired_of_le hle hexpired
  constructor
  · rw [Bool.eq_false_iff]
    intro hvalid
    obtain ⟨installation', verified, hinstalled', hverify⟩ :=
      hw.verify_of_valid hpresented ht hvalid
    obtain rfl := Option.some.inj (hinstalled.symm.trans hinstalled')
    cases hnow.symm.trans hverify
  · intro i transform hacts
    rw [Option.eq_none_iff_forall_ne_some]
    intro value hvalue
    obtain ⟨installation', token, hinstalled', -, hdecode, -⟩ :=
      hw.decode_of_validate hpresented ht hacts hvalue
    obtain rfl := Option.some.inj (hinstalled.symm.trans hinstalled')
    rw [Token.decode_of_verify_eq_error hnow] at hdecode
    cases hdecode

/-! ### The window -/

/-- **The window.**  The seconds of a time are rounded down.  Between two times of the calendar the
age of a token is the exact difference of their seconds: the token is too new if it was issued more
than a minute ahead, else too old if more seconds than the allowed ones have gone by, and otherwise
its age is allowed, which is so in an interval of whole seconds.  A token that has been verified
once is verified exactly in this interval.  One that has become too old is too old ever after, and
at no desk where the clock has not been set back since is it accepted, not even from memory. -/
theorem Token.checkAge_exact :
    (∀ t : Timestamp, t.nanos < 1000000000 → t.seconds = t.sinceEpoch / 1000000000) ∧
    (∀ (issued now : Timestamp) (maxAge : Option Duration),
      issued.InCalendar → now.InCalendar →
        age issued now = now.seconds - issued.seconds ∧
        (checkAge issued now maxAge = .error .notYetValid ↔
          60 < issued.seconds - now.seconds) ∧
        (checkAge issued now maxAge = .error .expired ↔ issued.seconds - now.seconds ≤ 60 ∧
          ∃ limit, maxAge = some limit ∧ (limit.seconds : ℤ) < now.seconds - issued.seconds) ∧
        (checkAge issued now maxAge = .ok () ↔ now.seconds ∈ window issued maxAge)) ∧
    (∀ keys text earlier maxAge' a, verify keys text earlier maxAge' = .ok a →
      ∀ (now : Timestamp) maxAge, now.InCalendar →
        ((∃ b, verify keys text now maxAge = .ok b) ↔ now.seconds ∈ window a.issuedAt maxAge)) ∧
    (∀ (now later : Timestamp) maxAge, now.seconds ≤ later.seconds →
      (∀ issued, checkAge issued now maxAge = .error .expired →
        checkAge issued later maxAge = .error .expired) ∧
      ∀ keys text, verify keys text now maxAge = .error .expired →
        verify keys text later maxAge = .error .expired) ∧
    ∀ {ι : Type} [DecidableEq ι] {β : ι → Type} (policy : TokenPolicy) (texts : Set String)
      (clock : Clock) (rng : Entropy) (w : Desk β),
      texts.InjOn (fun text => Sha256.digest (Bytes.ofText text)) →
      Desk.Reaches (TokenHandle.ofText '' texts) (.ofPolicy policy clock rng) w →
      ∀ text ∈ texts, ∀ (installation : Installation) (earlier : Timestamp),
        w.issuer.installed = some installation → earlier.seconds ≤ w.clock.wall.seconds →
        verify installation.keys text earlier policy.maxAge = .error .expired →
          (w.valid (.ofText text)).1 = false ∧
            ∀ (i : ι) (transform : Bytes → Desk β → Option (β i) × Desk β),
              Desk.Acts (TokenHandle.ofText '' texts) transform (w.enter (.ofText text) i) →
                (w.validate (.ofText text) i transform).1 = none := by
  refine ⟨?_, ?_, ?_, ?_, ?_⟩
  · intro t ht
    exact Timestamp.seconds_eq_sinceEpoch_div ht
  · intro issued now maxAge hissued hnow
    exact ⟨age_eq_sub hissued hnow, checkAge_eq_notYetValid_iff hissued hnow,
      checkAge_eq_expired_iff hissued hnow, checkAge_eq_ok_iff hissued hnow⟩
  · intro keys text earlier maxAge' a h now maxAge hnow
    exact exists_verify_iff h hnow
  · intro now later maxAge hle
    exact ⟨fun issued h => checkAge_expired_of_le hle h,
      fun keys text h => verify_expired_of_le hle h⟩
  · intro ι _ β policy texts clock rng w htexts hw text htext installation earlier hinstalled hle
      hexpired
    have hpresented := Desk.injOn_digest_image htexts
    have hbacked := hw.backed hpresented (.ofPolicy policy _ clock rng)
    exact hbacked.refuses_expired hpresented (Set.mem_image_of_mem _ htext) hinstalled hle hexpired

/-- The first and the last moment of the calendar, and a token that is too old after ten seconds. -/
theorem Token.checkAge_exact_at_ends :
    let first : Timestamp := ⟨Timestamp.minSeconds, 999999999⟩
    let last : Timestamp := ⟨Timestamp.maxSeconds, 0⟩
    let longest : Duration := .ofSeconds 0xffffffffffffffff
    let policy : TokenPolicy := { TokenPolicy.standard with maxAge := some (.ofSeconds 10) }
    let w : Desk fun _ : Unit => Bytes :=
      { (Desk.ofPolicy policy ⟨.ofSeconds 0, ⟨0⟩⟩ (.generated [] 0)).install ⟨.zeros 32⟩ with
        clock := ⟨.ofSeconds 12, .ofSeconds 12⟩ }
    first.seconds = first.sinceEpoch / 1000000000 ∧ age first last = 16544868105599 ∧
      checkAge first last (some longest) = .ok () ∧
      checkAge first last (some ⟨999999999⟩) = .error .expired ∧
      checkAge last first none = .error .notYetValid ∧
      ∃ text, (∃ b, verify (.derive ⟨.zeros 32⟩) text (.ofSeconds (-60)) none = .ok b) ∧
        verify (.derive ⟨.zeros 32⟩) text (.ofSeconds 12) policy.maxAge = .error .expired ∧
        (w.valid (.ofText text)).1 = false := by
  intro first last longest policy w
  obtain ⟨hfloor, hage, hwindow, hlater, hdesk⟩ := checkAge_exact
  have hfirst : first.InCalendar := by decide
  have hlast : last.InCalendar := by decide
  obtain ⟨hsub, -, hexpired, -⟩ := hage first last (some ⟨999999999⟩) hfirst hlast
  obtain ⟨-, -, -, hok⟩ := hage first last (some longest) hfirst hlast
  obtain ⟨-, hnew, -, -⟩ := hage last first none hlast hfirst
  obtain ⟨text, htext⟩ : ∃ text,
      Writes (.derive ⟨.zeros 32⟩) [] (.ofSeconds 0) (.zeros 16) text :=
    exists_writes_iff.mpr (by decide)
  have hcal : (Timestamp.ofSeconds 0).IsCalendarSecond := ⟨rfl, by decide, by decide⟩
  have hage0 : checkAge (.ofSeconds 0) (.ofSeconds 0) none = .ok () := rfl
  obtain ⟨box, hverify⟩ := issuedAt_of_decode (decode_of_writes htext hcal hage0)
  have hold : verify (.derive ⟨.zeros 32⟩) text (.ofSeconds 11) policy.maxAge =
      .error .expired := by
    rw [(verify_eq_map_checkAge hverify _ _).2]
    rfl
  have hreaches : Desk.Reaches (TokenHandle.ofText '' {text}) (.ofPolicy policy _ _) w :=
    ((Desk.Reaches.refl _).install ⟨.zeros 32⟩).elsewhere _ _ (Nat.zero_le _)
  refine ⟨hfloor first (by decide), hsub, hok.mpr ?_, hexpired.mpr ?_, hnew.mpr (by decide), text,
    (hwindow _ _ _ _ _ hverify (.ofSeconds (-60)) none (by decide)).mpr ?_, ?_, ?_⟩
  · exact Set.mem_Icc.mpr ⟨by decide, by decide⟩
  · exact ⟨by decide, _, rfl, by decide⟩
  · show (0 - 60 : ℤ) ≤ -60
    decide
  · exact (hlater (.ofSeconds 11) (.ofSeconds 12) policy.maxAge (by decide)).2 _ _ hold
  · exact (hdesk policy {text} _ _ w (Set.injOn_singleton _ _) hreaches text rfl
      ⟨0, .derive ⟨.zeros 32⟩⟩ (.ofSeconds 11) rfl (by decide) hold).1

end QuorumVault
