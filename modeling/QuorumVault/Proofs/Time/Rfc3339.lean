import Mathlib.Tactic
import QuorumVault.Proofs.Json.Number
import QuorumVault.Time.Rfc3339

/-!
# Timestamps read from their texts

A timestamp is read from its text as it was, to the nanosecond (`Timestamp.ofText?_text`).  The date
of a day is found by counting the days of eras, centuries and cycles of four years
(`Date.exists_ofDays`), of which only the last year may be longer, and the days before a date give
the day back (`Date.ofDays_spec`).  In the text every part has a fixed number of digits, save for
the years that have a sign, and so each is read up to its last one.
-/

namespace QuorumVault

namespace Text

theorem dropBlank_cons {c : Char} (rest : List Char) (h : isBlank c = false) :
    dropBlank (c :: rest) = c :: rest :=
  List.dropWhile_cons_of_neg (by rw [h]; exact Bool.false_ne_true)

theorem isBlank_of_isDigit {c : Char} (h : c.isDigit = true) : isBlank c = false := by
  have hrange : 48 ≤ c.toNat ∧ c.toNat ≤ 57 := Char.isDigit_iff_toNat.mp h
  rw [isBlank]
  simp
  omega

theorem dropBlank_append {ds : List Char} (hds : Draft.AreDigits ds) (rest : List Char) :
    dropBlank (ds ++ rest) = ds ++ rest := by
  obtain ⟨hne, hall⟩ := hds
  cases ds with
  | nil => exact absurd rfl hne
  | cons c ds => exact dropBlank_cons _ (isBlank_of_isDigit (hall c List.mem_cons_self))

end Text

namespace Timestamp

/-- A point of time of the calendar, with any fraction of a second. -/
def InCalendar (t : Timestamp) : Prop := minSeconds ≤ t.seconds ∧ t.seconds ≤ maxSeconds

instance (t : Timestamp) : Decidable t.InCalendar := inferInstanceAs (Decidable (_ ∧ _))

/-- Only the last second of a minute may go on for another one. -/
def HasRegularFraction (t : Timestamp) : Prop :=
  t.nanos < 1000000000 ∨ t.nanos < 2000000000 ∧ t.seconds % 60 = 59

instance (t : Timestamp) : Decidable t.HasRegularFraction := inferInstanceAs (Decidable (_ ∨ _))

/-! ### The calendar -/

/-- A day of a cycle of four years: its year and the day of that.  The leap days before the day are
counted as if they came every 1460 days, which is one too many for some days of the last year only,
and leaves those days in it. -/
theorem exists_yearOfCycle {century cycle rest : ℕ} (hcentury : century ≤ 3) (hcycle : cycle ≤ 24)
    (hrest : rest ≤ 1460) :
    ∃ year day : ℕ, year ≤ 3 ∧ day ≤ 365 ∧ (day = 365 → year = 3 ∧ rest = 1460) ∧
      rest = 365 * year + day ∧ (24 * century + cycle + rest) / 1460 ≤ rest ∧
      (rest - (24 * century + cycle + rest) / 1460) / 365 = year := by
  by_cases hearly : 24 * century + cycle + rest < 1460
  · rw [Nat.div_eq_of_lt hearly, Nat.sub_zero]
    exact ⟨rest / 365, rest % 365, by omega, by omega, by omega, (Nat.div_add_mod rest 365).symm,
      Nat.zero_le rest, rfl⟩
  · have hone : (24 * century + cycle + rest) / 1460 = 1 :=
      Nat.div_eq_of_lt_le (by omega) (by omega)
    have hyear : (rest - 1) / 365 = 3 := Nat.div_eq_of_lt_le (by omega) (by omega)
    rw [hone]
    exact ⟨3, rest - 1095, Nat.le_refl 3, by omega, by omega, by omega, by omega, hyear⟩

/-- A day of an era of four hundred years: its century, the cycle of four years in it, the year of
that, and the day of the year.  The last years of the cycles are longer by a day, but for those that
end a century other than the last. -/
theorem exists_yearOfEra {dayOfEra : ℕ} (h : dayOfEra < 146097) :
    ∃ century cycle year day : ℕ, century ≤ 3 ∧ cycle ≤ 24 ∧ year ≤ 3 ∧ day ≤ 365 ∧
      (day = 365 → year = 3 ∧ (cycle = 24 → century = 3)) ∧
      dayOfEra = 36524 * century + 1461 * cycle + 365 * year + day ∧
      (dayOfEra - dayOfEra / 1460 + dayOfEra / 36524 - dayOfEra / 146096) / 365 =
        100 * century + 4 * cycle + year := by
  -- the last day of an era is the only one beyond four centuries of the same length
  by_cases hlast : dayOfEra = 146096
  · exact ⟨3, 24, 3, 365, by omega, by omega, by omega, by omega, by omega, by omega, by
      subst hlast; rfl⟩
  have hera : dayOfEra / 146096 = 0 := Nat.div_eq_of_lt (by omega)
  obtain ⟨century, hcentury⟩ : ∃ n, n = dayOfEra / 36524 := ⟨_, rfl⟩
  obtain ⟨cycle, hcycle⟩ : ∃ n, n = dayOfEra % 36524 / 1461 := ⟨_, rfl⟩
  obtain ⟨rest, hrest⟩ : ∃ n, n = dayOfEra % 36524 % 1461 := ⟨_, rfl⟩
  have hsum : dayOfEra = 36524 * century + 1461 * cycle + rest := by omega
  have hcentury_le : century ≤ 3 := by omega
  have hcycle_le : cycle ≤ 24 := by omega
  have hrest_le : rest ≤ 1460 := by omega
  have hshort : cycle = 24 → rest ≤ 1459 := by omega
  have hleapDays :
      dayOfEra / 1460 = 25 * century + cycle + (24 * century + cycle + rest) / 1460 := by
    rw [← Nat.mul_add_div (by decide), hsum]
    congr 1
    ring
  obtain ⟨year, day, hyear, hday, hleap, hrestSum, hle, hyears⟩ :=
    exists_yearOfCycle hcentury_le hcycle_le hrest_le
  refine ⟨century, cycle, year, day, hcentury_le, hcycle_le, hyear, hday, fun hlong => ?_, ?_, ?_⟩
  · obtain ⟨hfourth, hlongest⟩ := hleap hlong
    exact ⟨hfourth, fun hcentennial => absurd (hshort hcentennial) (by omega)⟩
  · rw [hsum, hrestSum, Nat.add_assoc _ _ day]
  · rw [hera, hleapDays, ← hcentury]
    -- without the quotients that it was found by, the sum is all that is known of the day
    clear hcentury hcycle hrest hera hleapDays
    generalize (24 * century + cycle + rest) / 1460 = leapDays at hle hyears ⊢
    have hdays : dayOfEra - (25 * century + cycle + leapDays) + century - 0 =
        365 * (100 * century + 4 * cycle) + (rest - leapDays) := by
      clear hyears
      omega
    rw [hdays, Nat.mul_add_div (by decide), hyears]

/-- The days of the full years of an era, without which a day is one of its year. -/
theorem dayOfYear_eq {century cycle year : ℕ} (day : ℕ) (hcycle : cycle ≤ 24) (hyear : year ≤ 3) :
    36524 * century + 1461 * cycle + 365 * year + day - (365 * (100 * century + 4 * cycle + year) +
      (100 * century + 4 * cycle + year) / 4 - (100 * century + 4 * cycle + year) / 100) = day := by
  have hfourths : (100 * century + 4 * cycle + year) / 4 = 25 * century + cycle := by omega
  have hcenturies : (100 * century + 4 * cycle + year) / 100 = century := by omega
  rw [hfourths, hcenturies]
  omega

/-- The date of a day of a year that begins in March. -/
def Date.ofMarch (year : ℤ) (dayOfYear : ℕ) : Date :=
  let part := (5 * dayOfYear + 2) / 153
  let month := if part < 10 then part + 3 else part - 9
  ⟨year + (if month ≤ 2 then 1 else 0), month, dayOfYear - (153 * part + 2) / 5 + 1⟩

theorem Date.exists_ofDays (days : ℤ) :
    ∃ (era : ℤ) (century cycle year day : ℕ), century ≤ 3 ∧ cycle ≤ 24 ∧ year ≤ 3 ∧ day ≤ 365 ∧
      (day = 365 → year = 3 ∧ (cycle = 24 → century = 3)) ∧
      days = 146097 * era + (36524 * century + 1461 * cycle + 365 * year + day : ℕ) - 719468 ∧
      ofDays days = ofMarch (400 * era + (100 * century + 4 * cycle + year : ℕ)) day := by
  obtain ⟨dayOfEra, hday⟩ : ∃ n : ℕ, n = ((days + 719468) % 146097).toNat := ⟨_, rfl⟩
  have hera : days = 146097 * ((days + 719468) / 146097) + (dayOfEra : ℤ) - 719468 := by omega
  obtain ⟨century, cycle, year, day, hcentury, hcycle, hyear, hle, hleap, hsum, hyears⟩ :=
    exists_yearOfEra (show dayOfEra < 146097 by omega)
  refine ⟨(days + 719468) / 146097, century, cycle, year, day, hcentury, hcycle, hyear, hle, hleap,
    hsum ▸ hera, ?_⟩
  have hrest : dayOfEra - (365 * (100 * century + 4 * cycle + year) +
      (100 * century + 4 * cycle + year) / 4 - (100 * century + 4 * cycle + year) / 100) = day := by
    rw [hsum]
    exact dayOfYear_eq day hcycle hyear
  unfold ofDays ofMarch
  simp only [← hday, hyears, hrest]
  congr 1
  omega

section

variable {day : ℕ} (year : ℤ)

/-- The months of a year that begins in March, with the days before them. -/
theorem Date.ofMarch_cases (h : day ≤ 365) :
    ∃ n : ℕ, n < 12 ∧ (153 * n + 2) / 5 ≤ day ∧ day < (153 * (n + 1) + 2) / 5 ∧
      ofMarch year day = ⟨year + (if n < 10 then 0 else 1), if n < 10 then n + 3 else n - 9,
        day - (153 * n + 2) / 5 + 1⟩ := by
  refine ⟨(5 * day + 2) / 153, by omega, by omega, by omega, ?_⟩
  unfold ofMarch
  by_cases hlast : (5 * day + 2) / 153 < 10
  · simp only [if_pos hlast]
    rw [if_neg (by omega)]
  · simp only [if_neg hlast]
    rw [if_pos (by omega)]

theorem Date.ofMarch_bounds (h : day ≤ 365) (hleap : day = 365 → isLeapYear (year + 1) = true) :
    1 ≤ (ofMarch year day).month ∧ (ofMarch year day).month ≤ 12 ∧ 1 ≤ (ofMarch year day).day ∧
      (ofMarch year day).day ≤ daysInMonth (ofMarch year day).year (ofMarch year day).month := by
  obtain ⟨n, hn, hlow, hhigh, heq⟩ := ofMarch_cases year h
  rw [heq]
  refine ⟨?_, ?_, Nat.le_add_left 1 _, ?_⟩
  · show 1 ≤ if n < 10 then n + 3 else n - 9
    split_ifs <;> omega
  · show (if n < 10 then n + 3 else n - 9) ≤ 12
    split_ifs <;> omega
  · by_cases hfebruary : n = 11
    · subst hfebruary
      show day - 337 + 1 ≤ if isLeapYear (year + 1) then 29 else 28
      split_ifs with hyear
      · omega
      · have hday : day ≠ 365 := fun h => hyear (hleap h)
        omega
    · have hshort : n < 11 := by omega
      have hlength : (153 * (n + 1) + 2) / 5 - (153 * n + 2) / 5 ≤
          daysInMonth (year + (if n < 10 then 0 else 1)) (if n < 10 then n + 3 else n - 9) := by
        interval_cases n <;> simp [daysInMonth]
      refine le_trans ?_ hlength
      show day - (153 * n + 2) / 5 + 1 ≤ _
      omega

/-- The days before a year that begins in March, and those of the year. -/
theorem Date.toDays_ofMarch (era : ℤ) {yearOfEra : ℕ} (hyear : yearOfEra < 400) (h : day ≤ 365) :
    (ofMarch (400 * era + yearOfEra) day).toDays =
      146097 * era + (365 * yearOfEra + yearOfEra / 4 - yearOfEra / 100 + day : ℕ) - 719468 := by
  obtain ⟨n, hn, hlow, hhigh, heq⟩ := ofMarch_cases (400 * era + yearOfEra) h
  have hdays : (153 * n + 2) / 5 + (day - (153 * n + 2) / 5 + 1) - 1 = day := by omega
  have hera : (400 * era + (yearOfEra : ℤ)) / 400 = era := by omega
  have hrest : ((400 * era + (yearOfEra : ℤ)) % 400).toNat = yearOfEra := by omega
  rw [heq]
  unfold toDays
  by_cases hautumn : n < 10
  · simp only [if_pos hautumn]
    rw [if_neg (by omega), if_pos (by omega), Nat.add_sub_cancel, add_zero, sub_zero, hera, hrest,
      hdays]
    omega
  · simp only [if_neg hautumn]
    rw [if_pos (by omega), if_neg (by omega), add_sub_cancel_right, hera, hrest,
      Nat.sub_add_cancel (Nat.not_lt.mp hautumn |>.trans' (by decide)), hdays]
    omega

end

/-- A day has a date of the calendar, and the date tells the day. -/
theorem Date.ofDays_spec (days : ℤ) :
    (ofDays days).toDays = days ∧ 1 ≤ (ofDays days).month ∧ (ofDays days).month ≤ 12 ∧
      1 ≤ (ofDays days).day ∧
        (ofDays days).day ≤ daysInMonth (ofDays days).year (ofDays days).month := by
  obtain ⟨era, century, cycle, year, day, hcentury, hcycle, hyear, hle, hleap, hdays, heq⟩ :=
    exists_ofDays days
  rw [heq]
  refine ⟨?_, ofMarch_bounds _ hle fun hday => ?_⟩
  · rw [toDays_ofMarch era (by omega) hle, hdays]
    omega
  · obtain ⟨hlast, hcentury'⟩ := hleap hday
    unfold isLeapYear
    simp only [Bool.and_eq_true, Bool.or_eq_true, beq_iff_eq, bne_iff_ne]
    omega

/-- The calendar has the years from -262143 to 262142. -/
theorem Date.year_ofDays {days : ℤ} (hlow : -96465292 ≤ days) (hhigh : days ≤ 95026236) :
    -262143 ≤ (ofDays days).year ∧ (ofDays days).year ≤ 262142 := by
  obtain ⟨era, century, cycle, year, day, hcentury, hcycle, hyear, hle, -, hdays, heq⟩ :=
    exists_ofDays days
  obtain ⟨n, hn, hday, hday', hmarch⟩ :=
    ofMarch_cases (400 * era + (100 * century + 4 * cycle + year : ℕ)) hle
  have hera : -656 ≤ era ∧ era ≤ 655 := by omega
  have hautumn : n < 10 → day ≤ 305 := by omega
  have hwinter : 10 ≤ n → 306 ≤ day := by omega
  rw [heq, hmarch]
  dsimp only
  -- what is left of the months is which of the two years they are in
  clear heq hmarch hday hday'
  split_ifs <;> omega

/-! ### Digits -/

section

variable {ds rest : List Char} {max value n width : ℕ}

/-- Digits are read up to the greatest number of them or to what is no digit. -/
theorem moreDigits_append (hds : ∀ c ∈ ds, c.isDigit = true) (hmax : ds.length ≤ max)
    (hend : ds.length = max ∨ ∀ c ∈ rest.head?, Digit.decimal? c = none)
    (hvalue : Nat.ofDigitChars 10 ds value < 0x8000000000000000) :
    moreDigits max value (ds ++ rest) = .ok (Nat.ofDigitChars 10 ds value, rest) := by
  induction ds generalizing max value with
  | nil =>
    cases max with
    | zero => rfl
    | succ max =>
      cases rest with
      | nil => rfl
      | cons c rest =>
        have hc : Digit.decimal? c = none := by
          rcases hend with hlength | hend
          · cases hlength
          · exact hend c rfl
        show moreDigits (max + 1) value (c :: rest) = _
        simp only [moreDigits, hc]
        rfl
  | cons c ds ih =>
    cases max with
    | zero => cases hmax
    | succ max =>
      rw [Nat.ofDigitChars_cons] at hvalue ⊢
      have hc := Digit.decimal?_of_isDigit (hds c List.mem_cons_self)
      have hle := Digit.le_ofDigitChars ds (10 * value + (c.toNat - '0'.toNat))
      have hsmall : ¬0x8000000000000000 ≤ 10 * value + (c.toNat - 48) :=
        Nat.not_le.mpr (hle.trans_lt hvalue)
      rw [List.cons_append]
      simp only [moreDigits, hc, if_neg hsmall]
      exact ih (fun d hd => hds d (List.mem_cons_of_mem c hd)) (Nat.le_of_succ_le_succ hmax)
        (hend.imp_left Nat.succ.inj) hvalue

theorem digits_append (hds : Draft.AreDigits ds) (hmax : ds.length ≤ max)
    (hend : ds.length = max ∨ ∀ c ∈ rest.head?, Digit.decimal? c = none)
    (hvalue : Nat.ofDigitChars 10 ds 0 < 0x8000000000000000) :
    digits max (ds ++ rest) = .ok (Nat.ofDigitChars 10 ds 0, rest) := by
  obtain ⟨hne, hall⟩ := hds
  rw [← moreDigits_append hall hmax hend hvalue]
  cases ds with
  | nil => exact absurd rfl hne
  | cons c ds =>
    have hc := Digit.decimal?_of_isDigit (hall c List.mem_cons_self)
    show (if (Digit.decimal? c).isSome then _ else _) = _
    rw [hc]
    rfl

theorem areDigits_zeroPadded (width n : ℕ) : Draft.AreDigits (zeroPadded width n) := by
  constructor
  · exact List.append_ne_nil_of_right_ne_nil _ Nat.toDigits_ne_nil
  · intro c hc
    rcases List.mem_append.mp hc with hc | hc
    · rw [(List.mem_replicate.mp hc).2]
      rfl
    · exact Digit.isDigit_of_mem_toDigits hc

theorem ofDigitChars_zeroPadded (width n : ℕ) :
    Nat.ofDigitChars 10 (zeroPadded width n) 0 = n := by
  rw [zeroPadded, Nat.ofDigitChars_append, Nat.ofDigitChars_replicate_zero, Nat.mul_zero,
    Nat.ofDigitChars_ten_toDigits]

theorem length_zeroPadded (hwidth : 0 < width) (hn : n < 10 ^ width) :
    (zeroPadded width n).length = width := by
  have hle := (Nat.length_toDigits_le_iff (by decide) hwidth).mpr hn
  rw [zeroPadded, List.length_append, List.length_replicate, Nat.sub_add_cancel hle]

theorem digits_zeroPadded_append (hmax : (zeroPadded width n).length ≤ max)
    (hend : (zeroPadded width n).length = max ∨ ∀ c ∈ rest.head?, Digit.decimal? c = none)
    (hn : n < 0x8000000000000000) : digits max (zeroPadded width n ++ rest) = .ok (n, rest) := by
  have hvalue := ofDigitChars_zeroPadded width n
  have h := digits_append (areDigits_zeroPadded width n) hmax hend (by rwa [hvalue])
  rwa [hvalue] at h

/-- A number of a fixed width is read up to its last digit. -/
theorem digits_zeroPadded (hwidth : 0 < width) (hwide : width ≤ 18) (hn : n < 10 ^ width)
    (rest : List Char) : digits width (zeroPadded width n ++ rest) = .ok (n, rest) := by
  have hlength := length_zeroPadded hwidth hn
  have hsmall : n < 0x8000000000000000 :=
    hn.trans_le ((Nat.pow_le_pow_right (by decide) hwide).trans (by decide))
  exact digits_zeroPadded_append hlength.le (.inl hlength) hsmall

end

/-! ### The parts of a text -/

theorem part_zeroPadded {low high n : ℕ} (hlow : low ≤ n) (hhigh : n ≤ high) (hn : n < 100)
    (rest : List Char) : part low high (zeroPadded 2 n ++ rest) = .ok (n, rest) := by
  unfold part
  rw [Text.dropBlank_append (areDigits_zeroPadded 2 n),
    digits_zeroPadded (by decide) (by decide) (show n < 10 ^ 2 from hn)]
  exact if_pos ⟨hlow, hhigh⟩

/-- A year with a sign is read up to the dash after it. -/
theorem digits_dash {n : ℕ} (hn : n < 0x8000000000000000) (rest : List Char) :
    digits (zeroPadded 4 n ++ '-' :: rest).length (zeroPadded 4 n ++ '-' :: rest) =
      .ok (n, '-' :: rest) := by
  have hlength : (zeroPadded 4 n).length ≤ (zeroPadded 4 n ++ '-' :: rest).length := by
    rw [List.length_append]
    exact Nat.le_add_right _ _
  refine digits_zeroPadded_append hlength (.inr fun c hc => ?_) hn
  obtain rfl : '-' = c := Option.some.inj hc
  rfl

/-- The range of a year is checked after its sign. -/
theorem check_year {reading : Except Fault (ℕ × List Char)} {rest : List Char} {n : ℕ} {year : ℤ}
    (sign : ℕ → ℤ) (hread : reading = .ok (n, rest)) (hsign : sign n = year)
    (check : ℤ × List Char → Except Fault (ℤ × List Char)) : (do
      let (n, rest) ← reading
      check (← pure (sign n, rest))) = check (year, rest) := by
  rw [hread, ← hsign]
  rfl

theorem readYear_yearText {year : ℤ} (hlow : -262143 ≤ year) (hhigh : year ≤ 262142)
    (rest : List Char) : readYear (yearText year ++ '-' :: rest) = .ok (year, '-' :: rest) := by
  have hrange : -0x80000000 ≤ year ∧ year < 0x80000000 := by omega
  unfold yearText
  split_ifs with hshort hneg
  · have hsmall : year.toNat < 10 ^ 4 := by omega
    have hread := digits_zeroPadded (by decide) (by decide) hsmall ('-' :: rest)
    -- no sign is a digit
    have hsign {c : Char} (hc : c.isDigit = false) (chars : List Char) :
        zeroPadded 4 year.toNat ++ '-' :: rest ≠ c :: chars := by
      obtain ⟨hne, hall⟩ := areDigits_zeroPadded 4 year.toNat
      intro h
      have hhead := congrArg List.head? h
      rw [List.head?_append_of_ne_nil _ hne] at hhead
      rw [hall c (List.mem_of_head? hhead)] at hc
      cases hc
    unfold readYear
    rw [Text.dropBlank_append (areDigits_zeroPadded 4 _)]
    split
    · rename_i h
      exact absurd h (hsign (by decide) _)
    · rename_i h
      exact absurd h (hsign (by decide) _)
    · refine (check_year (fun n => n) hread (Int.toNat_of_nonneg hshort.1) _).trans ?_
      exact if_pos hrange
  · have hread := digits_dash (n := year.natAbs) (by omega) rest
    have hyear : -((year.natAbs : ℕ) : ℤ) = year := by omega
    unfold readYear
    rw [List.cons_append, Text.dropBlank_cons _ (by rfl)]
    refine (check_year (fun n => -n) hread hyear _).trans ?_
    exact if_pos hrange
  · have hread := digits_dash (n := year.natAbs) (by omega) rest
    have hyear : ((year.natAbs : ℕ) : ℤ) = year := by omega
    unfold readYear
    rw [List.cons_append, Text.dropBlank_cons _ (by rfl)]
    refine (check_year (fun n => n) hread hyear _).trans ?_
    exact if_pos hrange

/-- A fraction of three, six or nine digits. -/
theorem readFraction_point {width n : ℕ} (hwidth : 0 < width) (hle : width ≤ 9)
    (hn : n < 10 ^ width) :
    readFraction ('.' :: (zeroPadded width n ++ ['Z'])) = .ok (n * 10 ^ (9 - width), ['Z']) := by
  have hlength := length_zeroPadded hwidth hn
  have hsmall : n < 0x8000000000000000 :=
    hn.trans_le ((Nat.pow_le_pow_right (by decide) hle).trans (by decide))
  have hend : ∀ c ∈ ['Z'].head?, Digit.decimal? c = none := by
    intro c hc
    obtain rfl : 'Z' = c := Option.some.inj hc
    rfl
  have hread := digits_zeroPadded_append (hlength.trans_le hle) (.inr hend) hsmall
  unfold readFraction
  simp only [hread, Bind.bind, Except.bind, List.length_append, hlength, List.length_singleton,
    Nat.add_sub_cancel]
  rfl

theorem readFraction_fractionText {nanos : ℕ} (h : nanos < 1000000000) :
    readFraction (fractionText nanos ++ ['Z']) = .ok (nanos, ['Z']) := by
  unfold fractionText
  split_ifs with hzero hmillis hmicros
  · rw [hzero]
    rfl
  · rw [List.cons_append, readFraction_point (by decide) (by decide) (by omega)]
    congr 2
    omega
  · rw [List.cons_append, readFraction_point (by decide) (by decide) (by omega)]
    congr 2
    omega
  · rw [List.cons_append, readFraction_point (by decide) (by decide) (by omega)]
    congr 2
    omega

/-! ### Whole texts -/

/-- The parts of a text are read one after the other. -/
theorem ofChars?_append {date : Date} {hour minute second fraction : ℕ}
    (hyear : -262143 ≤ date.year ∧ date.year ≤ 262142) (hmonth : 1 ≤ date.month ∧ date.month ≤ 12)
    (hday : 1 ≤ date.day ∧ date.day ≤ 31) (hhour : hour ≤ 23) (hminute : minute ≤ 59)
    (hsecond : second ≤ 60) (hfraction : fraction < 1000000000) :
    ofChars? (yearText date.year ++ '-' :: (zeroPadded 2 date.month ++ '-' ::
      (zeroPadded 2 date.day ++ 'T' :: (zeroPadded 2 hour ++ ':' :: (zeroPadded 2 minute ++ ':' ::
        (zeroPadded 2 second ++ (fractionText fraction ++ ['Z']))))))) =
      if second = 60 then ofLocal date (hour * 3600 + minute * 60 + 59) (fraction + 1000000000) 0
      else ofLocal date (hour * 3600 + minute * 60 + second) fraction 0 := by
  have hdash (rest : List Char) : separator '-' ('-' :: rest) = .ok rest := rfl
  have hcolon (rest : List Char) : separator ':' (':' :: rest) = .ok rest := rfl
  have hletter (rest : List Char) : dayEnd ('T' :: rest) = .ok rest := rfl
  have hzone : readZone (Text.dropBlank ['Z']) = .ok (0, []) := rfl
  have hempty : (Text.dropBlank []).isEmpty = true := rfl
  unfold ofChars?
  simp only [readYear_yearText hyear.1 hyear.2, hdash, hcolon, hletter,
    part_zeroPadded hmonth.1 hmonth.2 (by omega), part_zeroPadded hday.1 hday.2 (by omega),
    part_zeroPadded (Nat.zero_le _) hhour (by omega),
    part_zeroPadded (Nat.zero_le _) hminute (by omega),
    part_zeroPadded (Nat.zero_le _) hsecond (by omega), readFraction_fractionText hfraction, hzone,
    Bind.bind, Except.bind]
  split_ifs with hleap
  · rfl
  · rfl

/-- A local time in UTC is the time of its day. -/
theorem ofLocal_ofDays {days : ℤ} {second : ℕ} (nanos : ℕ) (hsecond : second < 86400)
    (hlow : minSeconds ≤ days * 86400 + second) (hhigh : days * 86400 + second ≤ maxSeconds) :
    ofLocal (Date.ofDays days) second nanos 0 = .ok ⟨days * 86400 + second, nanos⟩ := by
  obtain ⟨hdays, -, -, -, hday⟩ := Date.ofDays_spec days
  have hyear : -262143 ≤ (Date.ofDays days).year ∧ (Date.ofDays days).year ≤ 262142 := by
    unfold minSeconds at hlow
    unfold maxSeconds at hhigh
    exact Date.year_ofDays (by omega) (by omega)
  unfold ofLocal
  rw [if_neg (by omega), if_neg (by omega), hdays, sub_zero]
  exact if_pos ⟨hlow, hhigh⟩

/-- **Timestamps**: the text of a point of time is read as it. -/
theorem ofText?_text {t : Timestamp} (hcalendar : t.InCalendar) (hfraction : t.HasRegularFraction) :
    ofText? t.text = .ok t := by
  obtain ⟨hlow, hhigh⟩ := hcalendar
  obtain ⟨hdays, hmonth, hmonth', hday, hday'⟩ := Date.ofDays_spec (t.seconds / 86400)
  have hyear : -262143 ≤ (Date.ofDays (t.seconds / 86400)).year ∧
      (Date.ofDays (t.seconds / 86400)).year ≤ 262142 := by
    unfold minSeconds at hlow
    unfold maxSeconds at hhigh
    exact Date.year_ofDays (by omega) (by omega)
  have hlong : (Date.ofDays (t.seconds / 86400)).day ≤ 31 := by
    refine hday'.trans ?_
    unfold daysInMonth
    split_ifs <;> omega
  obtain ⟨ofDay, hofDay⟩ : ∃ n : ℕ, n = (t.seconds % 86400).toNat := ⟨_, rfl⟩
  have hsum : t.seconds / 86400 * 86400 + (ofDay : ℤ) = t.seconds := by omega
  have hlt : ofDay < 86400 := by omega
  have hlocal (nanos : ℕ) := ofLocal_ofDays nanos hlt (hsum.symm ▸ hlow) (hsum.symm ▸ hhigh)
  rw [hsum] at hlocal
  unfold ofText? text chars
  simp only [String.toList_ofList, ← hofDay, List.append_assoc, List.cons_append]
  by_cases hleap : 1000000000 ≤ t.nanos
  · have hlast : ofDay % 60 + 1 = 60 := by
      unfold HasRegularFraction at hfraction
      omega
    have hnanos : t.nanos < 2000000000 := by
      unfold HasRegularFraction at hfraction
      omega
    rw [if_pos hleap, if_pos hleap, hlast, ofChars?_append hyear ⟨hmonth, hmonth'⟩ ⟨hday, hlong⟩
      (by omega) (by omega) (Nat.le_refl 60) (by omega), if_pos rfl,
      Nat.sub_add_cancel hleap]
    have hsecond : ofDay / 3600 * 3600 + ofDay / 60 % 60 * 60 + 59 = ofDay := by omega
    rw [hsecond]
    exact hlocal t.nanos
  · rw [if_neg hleap, if_neg hleap, Nat.add_zero, ofChars?_append hyear ⟨hmonth, hmonth'⟩
      ⟨hday, hlong⟩ (by omega) (by omega) (by omega) (Nat.not_le.mp hleap), if_neg (by omega)]
    have hsecond : ofDay / 3600 * 3600 + ofDay / 60 % 60 * 60 + ofDay % 60 = ofDay := by omega
    rw [hsecond]
    exact hlocal t.nanos

end Timestamp

end QuorumVault
