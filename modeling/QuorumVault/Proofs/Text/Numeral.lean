import Mathlib.Tactic
import QuorumVault.Proofs.Json.Number
import QuorumVault.Text.Numeral

/-!
# Numerals

The numerals of a number are its digits with any number of zeros, and perhaps a plus sign, in front
of them.  `Numeral.read` accepts these and no other characters (`read_eq_ok_iff`).  What it refuses
it refuses for the first thing from the left that is wrong (`read_eq_error_iff`): a character that
is no digit, or digits of which already the first few make too large a number.
-/

namespace QuorumVault.Numeral

variable {max value n : ℕ} {chars before rest : List Char} {fault : Fault}

/-- The characters after a plus sign; a sign that nothing follows is none. -/
def unsigned : List Char → List Char
  | '+' :: c :: rest => c :: rest
  | chars => chars

/-- The characters are a numeral of a number. -/
def Denotes (chars : List Char) (n : ℕ) : Prop :=
  Draft.AreDigits (unsigned chars) ∧ Nat.ofDigitChars 10 (unsigned chars) 0 = n

/-- What is wrong first, from the left, with characters that are no numeral up to `max`. -/
inductive Refused (max : ℕ) (chars : List Char) : Fault → Prop where
  | empty (h : chars = []) : Refused max chars .empty
  | invalidDigit {before rest : List Char} {c : Char} (h : unsigned chars = before ++ c :: rest)
      (hbefore : ∀ d ∈ before, d.isDigit = true)
      (hsmall : Nat.ofDigitChars 10 before 0 ≤ max) (hc : c.isDigit = false) :
      Refused max chars .invalidDigit
  | tooLarge {before rest : List Char} (h : unsigned chars = before ++ rest)
      (hbefore : ∀ d ∈ before, d.isDigit = true)
      (hlarge : max < Nat.ofDigitChars 10 before 0) : Refused max chars .tooLarge

/-! ### Digits -/

/-- Digits of a number that is not too large are read one after the other. -/
theorem readDigits_append (hbefore : ∀ d ∈ before, d.isDigit = true)
    (hsmall : Nat.ofDigitChars 10 before value ≤ max) (rest : List Char) :
    readDigits max value (before ++ rest) =
      readDigits max (Nat.ofDigitChars 10 before value) rest := by
  induction before generalizing value with
  | nil => rfl
  | cons d before ih =>
    rw [Nat.ofDigitChars_cons] at hsmall ⊢
    have hd := Digit.decimal?_of_isDigit (hbefore d List.mem_cons_self)
    have hle := Digit.le_ofDigitChars before (10 * value + (d.toNat - '0'.toNat))
    have hnext : ¬max < 10 * value + (d.toNat - 48) := Nat.not_lt.mpr (hle.trans hsmall)
    rw [List.cons_append]
    simp only [readDigits, hd, if_neg hnext]
    exact ih (fun c hc => hbefore c (List.mem_cons_of_mem d hc)) hsmall

theorem readDigits_of_lt (hbefore : ∀ d ∈ before, d.isDigit = true) (hvalue : value ≤ max)
    (hlarge : max < Nat.ofDigitChars 10 before value) (rest : List Char) :
    readDigits max value (before ++ rest) = .error .tooLarge := by
  induction before generalizing value with
  | nil => exact absurd hlarge (Nat.not_lt.mpr hvalue)
  | cons d before ih =>
    rw [Nat.ofDigitChars_cons] at hlarge
    have hd := Digit.decimal?_of_isDigit (hbefore d List.mem_cons_self)
    rw [List.cons_append]
    simp only [readDigits, hd]
    split_ifs with hnext
    · rfl
    · exact ih (fun c hc => hbefore c (List.mem_cons_of_mem d hc)) (Nat.not_lt.mp hnext) hlarge

theorem decimal?_of_not_isDigit {c : Char} (h : c.isDigit = false) : Digit.decimal? c = none := by
  unfold Digit.decimal?
  rw [if_neg]
  intro hrange
  rw [Char.isDigit_iff_toNat.mpr ⟨hrange.1, hrange.2⟩] at h
  cases h

theorem isDigit_of_decimal? {c : Char} (h : (Digit.decimal? c).isSome = true) :
    c.isDigit = true := by
  cases hc : c.isDigit with
  | true => rfl
  | false =>
    rw [decimal?_of_not_isDigit hc] at h
    cases h

/-- The first character that is no digit, if there is one. -/
theorem isDigit_or_exists_append (chars : List Char) :
    (∀ d ∈ chars, d.isDigit = true) ∨ ∃ before c rest, chars = before ++ c :: rest ∧
      (∀ d ∈ before, d.isDigit = true) ∧ c.isDigit = false := by
  induction chars with
  | nil => exact .inl nofun
  | cons d chars ih =>
    cases hd : d.isDigit with
    | false => exact .inr ⟨[], d, chars, rfl, nofun, hd⟩
    | true =>
      rcases ih with hall | ⟨before, c, rest, rfl, hbefore, hc⟩
      · exact .inl (List.forall_mem_cons.mpr ⟨hd, hall⟩)
      · exact .inr ⟨d :: before, c, rest, rfl, List.forall_mem_cons.mpr ⟨hd, hbefore⟩, hc⟩

/-! ### Numerals -/

theorem unsigned_ne_nil (h : chars ≠ []) : unsigned chars ≠ [] := by
  unfold unsigned
  split
  · exact List.cons_ne_nil _ _
  · exact h

theorem read_of_ne_nil (h : chars ≠ []) : read max chars = readDigits max 0 (unsigned chars) := by
  fun_cases read max chars with
  | case1 => exact absurd rfl h
  | case2 => rfl
  | case3 digits hdigits =>
    cases digits with
    | nil => exact absurd rfl hdigits
    | cons d digits => rfl
  | case4 digits _ hsign hplus =>
    have hunsigned : unsigned chars = chars := by
      unfold unsigned
      split
      · exact absurd rfl (hplus _)
      · rfl
    rw [hunsigned]

theorem read_of_denotes (h : Denotes chars n) (hn : n ≤ max) : read max chars = .ok n := by
  obtain ⟨⟨hne, hdigits⟩, rfl⟩ := h
  have hchars : chars ≠ [] := by
    rintro rfl
    exact hne rfl
  have hread := readDigits_append hdigits hn []
  rw [List.append_nil] at hread
  rw [read_of_ne_nil hchars, hread, readDigits]

theorem read_of_refused (h : Refused max chars fault) : read max chars = .error fault := by
  have hne {front : List Char} (hfront : unsigned chars = front) (hsome : front ≠ []) :
      chars ≠ [] := by
    rintro rfl
    exact hsome hfront.symm
  cases h with
  | empty h => rw [h, read]
  | @invalidDigit before rest c h hbefore hsmall hc =>
    rw [read_of_ne_nil (hne h (List.append_ne_nil_of_right_ne_nil _ (List.cons_ne_nil _ _))), h,
      readDigits_append hbefore hsmall]
    simp only [readDigits, decimal?_of_not_isDigit hc]
  | @tooLarge before rest h hbefore hlarge =>
    have hbefore' : before ≠ [] := by
      rintro rfl
      exact Nat.not_lt_zero _ hlarge
    rw [read_of_ne_nil (hne h (List.append_ne_nil_of_left_ne_nil hbefore' _)), h,
      readDigits_of_lt hbefore (Nat.zero_le _) hlarge]

/-- Characters are a numeral, or something is wrong with them. -/
theorem denotes_or_refused (max : ℕ) (chars : List Char) :
    (∃ n ≤ max, Denotes chars n) ∨ ∃ fault, Refused max chars fault := by
  by_cases hchars : chars = []
  · exact .inr ⟨_, .empty hchars⟩
  rcases isDigit_or_exists_append (unsigned chars) with hall | ⟨before, c, rest, h, hbefore, hc⟩
  · rcases Nat.lt_or_ge max (Nat.ofDigitChars 10 (unsigned chars) 0) with hlarge | hsmall
    · exact .inr ⟨_, .tooLarge (List.append_nil _).symm hall hlarge⟩
    · exact .inl ⟨_, hsmall, ⟨unsigned_ne_nil hchars, hall⟩, rfl⟩
  · rcases Nat.lt_or_ge max (Nat.ofDigitChars 10 before 0) with hlarge | hsmall
    · exact .inr ⟨_, .tooLarge h hbefore hlarge⟩
    · exact .inr ⟨_, .invalidDigit h hbefore hsmall hc⟩

theorem read_eq_ok_iff : read max chars = .ok n ↔ Denotes chars n ∧ n ≤ max := by
  constructor
  · intro h
    rcases denotes_or_refused max chars with ⟨m, hm, hdenotes⟩ | ⟨fault, hrefused⟩
    · obtain rfl := Except.ok.inj ((read_of_denotes hdenotes hm).symm.trans h)
      exact ⟨hdenotes, hm⟩
    · rw [read_of_refused hrefused] at h
      cases h
  · rintro ⟨hdenotes, hn⟩
    exact read_of_denotes hdenotes hn

theorem read_eq_error_iff : read max chars = .error fault ↔ Refused max chars fault := by
  constructor
  · intro h
    rcases denotes_or_refused max chars with ⟨m, hm, hdenotes⟩ | ⟨fault', hrefused⟩
    · rw [read_of_denotes hdenotes hm] at h
      cases h
    · obtain rfl := Except.error.inj ((read_of_refused hrefused).symm.trans h)
      exact hrefused
  · exact read_of_refused

end QuorumVault.Numeral
