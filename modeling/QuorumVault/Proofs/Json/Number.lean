import Mathlib.Tactic
import QuorumVault.Json.Draft
import QuorumVault.Json.Printer

/-!
# Reading the texts of numbers

The text of every number is read up to its end, wherever a number may end (`readValue_number`), and
that of an integer of 64 bits is read as that integer (`ofNumber_integer`).

A number is written as a sign, digits of which only a single one may begin with a zero, a fraction
and an exponent; `readLiteral_append` reads these parts one after the other.
-/

namespace QuorumVault

/-! ### Digits -/

namespace Digit

theorem decimal?_of_isDigit {c : Char} (h : c.isDigit = true) :
    decimal? c = some (c.toNat - 48) := by
  have hrange := Char.isDigit_iff_toNat.mp h
  unfold decimal?
  rw [if_pos ⟨hrange.1, hrange.2⟩]

/-- The values of decimal digits. -/
def values (digits : List Char) : List Nat := digits.map fun c => c.toNat - 48

theorem filterMap_decimal? {digits : List Char} (hdigits : ∀ c ∈ digits, c.isDigit = true) :
    digits.filterMap decimal? = values digits := by
  rw [values, ← List.filterMap_eq_map]
  apply List.filterMap_congr
  intro c hc
  exact decimal?_of_isDigit (hdigits c hc)

theorem takeWhile_of_head? {p : Char → Bool} {rest : List Char}
    (hrest : ∀ c ∈ rest.head?, p c = false) :
    rest.takeWhile p = [] ∧ rest.dropWhile p = rest := by
  cases rest with
  | nil => exact ⟨rfl, rfl⟩
  | cons c rest =>
    have hc : ¬p c = true := Bool.eq_false_iff.mp (hrest c rfl)
    exact ⟨List.takeWhile_cons_of_neg hc, List.dropWhile_cons_of_neg hc⟩

/-- Digits end where a character follows that is none. -/
theorem takeWhile_append {p : Char → Bool} {digits rest : List Char}
    (hdigits : ∀ c ∈ digits, p c = true) (hrest : ∀ c ∈ rest.head?, p c = false) :
    (digits ++ rest).takeWhile p = digits ∧ (digits ++ rest).dropWhile p = rest := by
  obtain ⟨htake, hdrop⟩ := takeWhile_of_head? hrest
  rw [List.takeWhile_append_of_pos hdigits, List.dropWhile_append_of_pos hdigits, htake, hdrop]
  exact ⟨List.append_nil _, rfl⟩

/-- Digits are told apart from what follows them, unless that is a digit too. -/
theorem span_append {digits rest : List Char} (hdigits : ∀ c ∈ digits, c.isDigit = true)
    (hrest : ∀ c ∈ rest.head?, decimal? c = none) :
    span (digits ++ rest) = (values digits, rest) := by
  have hsome : ∀ c ∈ digits, (decimal? c).isSome = true := by
    intro c hc
    rw [decimal?_of_isDigit (hdigits c hc)]
    rfl
  have hnone : ∀ c ∈ rest.head?, (decimal? c).isSome = false := by
    intro c hc
    rw [hrest c hc]
    rfl
  obtain ⟨htake, hdrop⟩ := takeWhile_append hsome hnone
  rw [span, htake, hdrop, filterMap_decimal? hdigits]

theorem isDigit_of_mem_toDigits {n : ℕ} {c : Char} (h : c ∈ Nat.toDigits 10 n) :
    c.isDigit = true :=
  Nat.isDigit_of_mem_toDigits (by decide) (by decide) h

/-- Only zero is written with a zero in front. -/
theorem head?_toDigits {n : ℕ} (hn : n ≠ 0) : (Nat.toDigits 10 n).head? ≠ some '0' := by
  induction n using Nat.strongRecOn with
  | ind n ih =>
    by_cases hlt : n < 10
    · rw [Nat.toDigits_of_lt_base hlt]
      intro h
      exact hn (Nat.digitChar_eq_zero.mp (Option.some.inj h))
    · have hle : 10 ≤ n := Nat.not_lt.mp hlt
      have hhead := ih (n / 10) (by omega) (by omega)
      rw [Nat.toDigits_of_base_le (by decide) hle,
        List.head?_append_of_ne_nil _ Nat.toDigits_ne_nil]
      exact hhead

theorem toDigits_of_head? {n : ℕ} (h : (Nat.toDigits 10 n).head? = some '0') :
    Nat.toDigits 10 n = ['0'] := by
  by_cases hn : n = 0
  · rw [hn]
    rfl
  · exact absurd h (head?_toDigits hn)

theorem toDigits_of_isDigit {c : Char} (h : c.isDigit = true) :
    c.toNat - 48 < 10 ∧ Nat.toDigits 10 (c.toNat - 48) = [c] := by
  have hrange : 48 ≤ c.toNat ∧ c.toNat ≤ 57 := Char.isDigit_iff_toNat.mp h
  have hd : c.toNat - 48 < 10 := by omega
  have hchar : ∀ d < 10, Nat.digitChar d = Char.ofNat (48 + d) := by decide
  rw [Nat.toDigits_of_lt_base hd, hchar _ hd, Nat.add_sub_cancel' hrange.1, Char.ofNat_toNat]
  exact ⟨hd, rfl⟩

theorem toDigits_ofDigitChars_of_pos {digits : List Char} {value : ℕ} (hvalue : 0 < value)
    (hdigits : ∀ c ∈ digits, c.isDigit = true) :
    Nat.toDigits 10 (Nat.ofDigitChars 10 digits value) = Nat.toDigits 10 value ++ digits := by
  induction digits generalizing value with
  | nil => exact (List.append_nil _).symm
  | cons c digits ih =>
    obtain ⟨hc, hdigits⟩ := List.forall_mem_cons.mp hdigits
    obtain ⟨hd, hsingle⟩ := toDigits_of_isDigit hc
    have hnext : 0 < 10 * value + (c.toNat - 48) := by omega
    rw [Nat.ofDigitChars_cons]
    refine (ih hnext hdigits).trans ?_
    rw [← Nat.toDigits_append_toDigits (by decide) hvalue hd, hsingle, List.append_assoc]
    rfl

theorem le_ofDigitChars (digits : List Char) (value : ℕ) :
    value ≤ Nat.ofDigitChars 10 digits value := by
  induction digits generalizing value with
  | nil => exact Nat.le_refl value
  | cons c digits ih =>
    rw [Nat.ofDigitChars_cons]
    have h := ih (10 * value + (c.toNat - '0'.toNat))
    omega

end Digit

namespace Draft

/-! ### The parts of a number -/

/-- What does not go on with a number that has been read. -/
def EndsNumber (rest : List Char) : Prop :=
  ∀ c ∈ rest.head?, Digit.decimal? c = none ∧ c ≠ '.' ∧ c ≠ 'e' ∧ c ≠ 'E'

theorem endsNumber_nil : EndsNumber [] := fun c hc => by cases hc

theorem endsNumber_cons {c : Char} (rest : List Char)
    (h : Digit.decimal? c = none ∧ c ≠ '.' ∧ c ≠ 'e' ∧ c ≠ 'E') : EndsNumber (c :: rest) := by
  intro c' hc'
  obtain rfl : c = c' := Option.some.inj hc'
  exact h

/-- The point and the digits of a fraction, if there is one. -/
def fractionChars : Option (List Char) → List Char
  | none => []
  | some digits => '.' :: digits

/-- The text of an exponent, if there is one. -/
def exponentChars : Option Int → List Char
  | none => []
  | some exponent => Binary64.exponentText exponent

/-- One digit or more. -/
def AreDigits (digits : List Char) : Prop := digits ≠ [] ∧ ∀ c ∈ digits, c.isDigit = true

theorem areDigits_toDigits (n : ℕ) : AreDigits (Nat.toDigits 10 n) :=
  ⟨Nat.toDigits_ne_nil, fun _ hc => Digit.isDigit_of_mem_toDigits hc⟩

/-- Digits without a zero in front of others are what is written for their number. -/
theorem toDigits_ofDigitChars {digits : List Char} (h : AreDigits digits)
    (hzero : digits.head? = some '0' → digits.length ≤ 1) :
    Nat.toDigits 10 (Nat.ofDigitChars 10 digits 0) = digits := by
  obtain ⟨hne, hall⟩ := h
  cases digits with
  | nil => exact absurd rfl hne
  | cons c digits =>
    obtain ⟨hc, hdigits⟩ := List.forall_mem_cons.mp hall
    obtain ⟨-, hsingle⟩ := Digit.toDigits_of_isDigit hc
    have hfirst : Nat.ofDigitChars 10 (c :: digits) 0 =
        Nat.ofDigitChars 10 digits (c.toNat - 48) := by
      rw [Nat.ofDigitChars_cons, Nat.mul_zero, Nat.zero_add]
      rfl
    rw [hfirst]
    by_cases hpositive : 0 < c.toNat - 48
    · rw [Digit.toDigits_ofDigitChars_of_pos hpositive hdigits, hsingle]
      rfl
    · have hrange : 48 ≤ c.toNat ∧ c.toNat ≤ 57 := Char.isDigit_iff_toNat.mp hc
      have hvalue : c.toNat = 48 := by omega
      obtain rfl : c = '0' := Char.toNat_inj.mp hvalue
      obtain rfl : digits = [] := List.length_eq_zero_iff.mp (Nat.le_zero.mp
        (Nat.le_of_succ_le_succ (hzero rfl)))
      rfl

theorem someDigits_append {digits rest : List Char} (hdigits : AreDigits digits)
    (hrest : ∀ c ∈ rest.head?, Digit.decimal? c = none) :
    someDigits (digits ++ rest) = .ok (Digit.values digits, rest) := by
  unfold someDigits
  rw [Digit.span_append hdigits.2 hrest]
  cases digits with
  | nil => exact absurd rfl hdigits.1
  | cons c digits => rfl

theorem readWhole_append {digits rest : List Char} (hdigits : AreDigits digits)
    (hzero : digits.head? = some '0' → digits = ['0'])
    (hrest : ∀ c ∈ rest.head?, Digit.decimal? c = none) :
    readWhole (digits ++ rest) = .ok (Digit.values digits, rest) := by
  have hvalues (d : ℕ) (ds : List ℕ) : Digit.values digits ≠ 0 :: d :: ds := by
    intro h
    cases digits with
    | nil => cases h
    | cons c digits =>
      -- a zero would have to stand alone
      obtain ⟨hc, hds⟩ := List.cons.inj h
      have hlow := (Char.isDigit_iff_toNat.mp (hdigits.2 c List.mem_cons_self)).1
      obtain rfl : c = '0' :=
        Char.toNat_inj.mp (Nat.le_antisymm (Nat.sub_eq_zero_iff_le.mp hc) hlow)
      obtain rfl : digits = [] := (List.cons.inj (hzero rfl)).2
      cases hds
  unfold readWhole
  rw [someDigits_append hdigits hrest]
  simp only [Bind.bind, Except.bind]

theorem readFraction_append {rest : List Char} (fraction : Option (List Char))
    (hfraction : ∀ digits ∈ fraction, AreDigits digits)
    (hrest : ∀ c ∈ rest.head?, Digit.decimal? c = none ∧ c ≠ '.') :
    readFraction (fractionChars fraction ++ rest) = .ok (fraction.map Digit.values, rest) := by
  cases fraction with
  | none =>
    cases rest with
    | nil => rfl
    | cons c rest =>
      have hc := (hrest c rfl).2
      show readFraction (c :: rest) = _
      unfold readFraction
      split
      · rename_i h
        exact absurd (List.cons.inj h).1 hc
      · rfl
  | some digits =>
    show readFraction ('.' :: (digits ++ rest)) = _
    unfold readFraction
    simp only [someDigits_append (hfraction digits rfl) fun c hc => (hrest c hc).1]
    rfl

theorem ofDigits_values (digits : List Char) :
    ofDigits (Digit.values digits) = Nat.ofDigitChars 10 digits 0 := by
  rw [ofDigits, Digit.values, List.foldl_map]
  rfl

theorem readExponentDigits_append (n : ℕ) {rest : List Char} (negative : Bool)
    (hrest : ∀ c ∈ rest.head?, Digit.decimal? c = none) :
    readExponentDigits negative (Nat.toDigits 10 n ++ rest) =
      .ok (some (if negative then -(n : Int) else n), rest) := by
  unfold readExponentDigits
  rw [someDigits_append (areDigits_toDigits n) hrest]
  show Except.ok (some (if negative then -((ofDigits _ : ℕ) : Int) else (ofDigits _ : ℕ)), rest) = _
  rw [ofDigits_values, Nat.ofDigitChars_ten_toDigits]

theorem readExponent_append {rest : List Char} (exponent : Option Int) (hrest : EndsNumber rest) :
    readExponent (exponentChars exponent ++ rest) = .ok (exponent, rest) := by
  cases exponent with
  | none =>
    cases rest with
    | nil => rfl
    | cons c rest =>
      obtain ⟨-, -, he, hE⟩ := hrest c rfl
      show readExponent (c :: rest) = _
      unfold readExponent
      simp only [he, hE, or_self, if_false]
  | some exponent =>
    have hrest' : ∀ c ∈ rest.head?, Digit.decimal? c = none := fun c hc => (hrest c hc).1
    by_cases hneg : exponent < 0
    · have hchars : exponentChars (some exponent) ++ rest =
          'e' :: '-' :: (Nat.toDigits 10 exponent.natAbs ++ rest) := by
        rw [exponentChars, Binary64.exponentText, if_pos hneg]
        rfl
      rw [hchars]
      show readExponentDigits true (Nat.toDigits 10 exponent.natAbs ++ rest) = _
      rw [readExponentDigits_append _ true hrest', if_pos rfl]
      congr 3
      omega
    · have hchars : exponentChars (some exponent) ++ rest =
          'e' :: '+' :: (Nat.toDigits 10 exponent.natAbs ++ rest) := by
        rw [exponentChars, Binary64.exponentText, if_neg hneg]
        rfl
      rw [hchars]
      show readExponentDigits false (Nat.toDigits 10 exponent.natAbs ++ rest) = _
      rw [readExponentDigits_append _ false hrest', if_neg Bool.false_ne_true]
      congr 3
      omega

/-- The parts of a number are read one after the other. -/
theorem readLiteral_append {whole rest : List Char} (negative : Bool)
    (fraction : Option (List Char)) (exponent : Option Int) (hwhole : AreDigits whole)
    (hzero : whole.head? = some '0' → whole = ['0'])
    (hfraction : ∀ digits ∈ fraction, AreDigits digits) (hrest : EndsNumber rest) :
    readLiteral negative (whole ++ fractionChars fraction ++ exponentChars exponent ++ rest) =
      .ok (⟨negative, Digit.values whole, fraction.map Digit.values, exponent⟩, rest) := by
  -- neither a point nor the sign of an exponent goes on with the digits before it
  have hexponent : ∀ c ∈ (exponentChars exponent ++ rest).head?,
      Digit.decimal? c = none ∧ c ≠ '.' := by
    intro c hc
    cases exponent with
    | none => exact ⟨(hrest c hc).1, (hrest c hc).2.1⟩
    | some exponent =>
      obtain rfl : 'e' = c := Option.some.inj hc
      decide
  have hpoint : ∀ c ∈ (fractionChars fraction ++ (exponentChars exponent ++ rest)).head?,
      Digit.decimal? c = none := by
    intro c hc
    cases fraction with
    | none => exact (hexponent c hc).1
    | some digits =>
      obtain rfl : '.' = c := Option.some.inj hc
      decide
  unfold readLiteral
  simp only [List.append_assoc, readWhole_append hwhole hzero hpoint,
    readFraction_append fraction hfraction hexponent, readExponent_append exponent hrest, Bind.bind,
    Except.bind]

/-- Characters that are read as a number without a sign, wherever one may end. -/
def IsLiteral (chars : List Char) : Prop :=
  (∃ c digits, chars = c :: digits ∧ c.isDigit = true) ∧
    ∀ negative, ∃ l, ∀ rest, EndsNumber rest → readLiteral negative (chars ++ rest) = .ok (l, rest)

theorem isLiteral_append {whole : List Char} (fraction : Option (List Char)) (exponent : Option Int)
    (hwhole : AreDigits whole) (hzero : whole.head? = some '0' → whole = ['0'])
    (hfraction : ∀ digits ∈ fraction, AreDigits digits) :
    IsLiteral (whole ++ fractionChars fraction ++ exponentChars exponent) := by
  constructor
  · cases whole with
    | nil => exact absurd rfl hwhole.1
    | cons c digits => exact ⟨c, _, rfl, hwhole.2 c List.mem_cons_self⟩
  · intro negative
    exact ⟨_, fun rest hrest =>
      readLiteral_append negative fraction exponent hwhole hzero hfraction hrest⟩

theorem areDigits_of_mem_some {digits : List Char} (hdigits : AreDigits digits) :
    ∀ ds ∈ some digits, AreDigits ds := by
  intro ds hds
  obtain rfl := Option.some.inj hds
  exact hdigits

/-- A number with a fraction and without an exponent. -/
theorem isLiteral_point {whole digits : List Char} (hwhole : AreDigits whole)
    (hzero : whole.head? = some '0' → whole = ['0']) (hdigits : AreDigits digits) :
    IsLiteral (whole ++ '.' :: digits) := by
  have h := isLiteral_append (some digits) none hwhole hzero (areDigits_of_mem_some hdigits)
  rwa [exponentChars, List.append_nil] at h

end Draft

/-! ### Doubles -/

namespace Binary64

open Draft (AreDigits IsLiteral areDigits_of_mem_some areDigits_toDigits isLiteral_append
  isLiteral_point)

/-- A number that is not zero does not round to zero, on whatever grid. -/
theorem roundsTo_zero {x : Binary64} (hx : x.mantissa ≠ 0) (power : Int) :
    x.roundsTo 0 power = false := by
  have hunit : 0 < Nat.pow 2 (x.exponent - 2).toNat * Nat.pow 10 (-power).toNat :=
    Nat.mul_pos (Nat.pow_pos (by decide)) (Nat.pow_pos (by decide))
  have hlow : 0 < (if x.mantissa = 0x10000000000000 ∧ -1074 < x.exponent then 4 * x.mantissa - 1
      else 4 * x.mantissa - 2) := by
    split_ifs <;> omega
  have hproduct := Nat.mul_pos hlow hunit
  unfold roundsTo
  simp only [Nat.zero_mul]
  split_ifs <;> simp <;> omega

theorem roundsTo_of_neighbour? {x : Binary64} {power : Int} {digits : ℕ}
    (h : x.neighbour? power = some digits) : x.roundsTo digits power = true := by
  unfold neighbour? at h
  simp only at h
  generalize nearestQuotient _ _ = nearest at h
  generalize (if nearest = _ then _ else _) = other at h
  split_ifs at h with hnearest hother
  · obtain rfl := Option.some.inj h
    exact hnearest
  · obtain rfl := Option.some.inj h
    exact hother

/-- The shortest digits of a number that is not zero are not zero. -/
theorem shortest_ne_zero {x : Binary64} (hx : x.mantissa ≠ 0) : x.shortest.1 ≠ 0 := by
  have hcandidate (candidates : List (ℕ × Int)) (h : ∀ c ∈ candidates, c.1 ≠ 0) :
      (candidates.headD (x.mantissa, 0)).1 ≠ 0 := by
    cases candidates with
    | nil => exact hx
    | cons c candidates => exact h c List.mem_cons_self
  unfold shortest
  simp only
  have hdigits := hcandidate ((List.range 17).filterMap fun (n : ℕ) =>
    (x.neighbour? (x.leadingPlace - n)).map fun digits => (digits, x.leadingPlace - n)) (by
      intro c hc
      obtain ⟨n, -, hn⟩ := List.mem_filterMap.mp hc
      obtain ⟨digits, hneighbour, rfl⟩ := Option.map_eq_some_iff.mp hn
      rintro rfl
      have hrounds := roundsTo_of_neighbour? hneighbour
      rw [roundsTo_zero hx] at hrounds
      cases hrounds)
  split_ifs with hten
  · show _ / 10 ≠ 0
    omega
  · exact hdigits

/-- However many digits stand before the point, the text of a magnitude is a number. -/
theorem isLiteral_layout {digits : List Char} (power : Int) (hdigits : AreDigits digits)
    (hzero : digits.head? ≠ some '0') : IsLiteral (layout digits power) := by
  have hzeros (n : ℕ) : ∀ c ∈ List.replicate n '0', c.isDigit = true := by
    intro c hc
    rw [(List.mem_replicate.mp hc).2]
    rfl
  have hdrop (n : ℕ) (hn : n < digits.length) : AreDigits (digits.drop n) :=
    ⟨List.ne_nil_of_length_pos (by rw [List.length_drop]; omega),
      fun c hc => hdigits.2 c (List.mem_of_mem_drop hc)⟩
  have htake (n : ℕ) (hn : n ≠ 0) (hlt : n < digits.length) :
      AreDigits (digits.take n) ∧ (digits.take n).head? ≠ some '0' := by
    refine ⟨⟨?_, fun c hc => hdigits.2 c (List.mem_of_mem_take hc)⟩, ?_⟩
    · exact List.ne_nil_of_length_pos (by rw [List.length_take]; omega)
    · rw [List.head?_take, if_neg hn]
      exact hzero
  unfold layout
  simp only
  split_ifs with hwhole hpoint hsmall
  · -- all digits stand before the point
    have hne : digits ++ List.replicate power.toNat '0' ≠ [] := List.append_ne_nil_of_left_ne_nil
      hdigits.1 _
    have hall : ∀ c ∈ digits ++ List.replicate power.toNat '0', c.isDigit = true := by
      intro c hc
      rcases List.mem_append.mp hc with hc | hc
      · exact hdigits.2 c hc
      · exact hzeros _ c hc
    have hhead : (digits ++ List.replicate power.toNat '0').head? ≠ some '0' := by
      rw [List.head?_append_of_ne_nil _ hdigits.1]
      exact hzero
    exact isLiteral_point ⟨hne, hall⟩ (fun h => absurd h hhead) (areDigits_toDigits 0)
  · -- the point stands between the digits
    have hlt : ((digits.length : Int) + power).toNat < digits.length := by omega
    obtain ⟨hleft, hhead⟩ := htake _ (by omega) hlt
    exact isLiteral_point hleft (fun h => absurd h hhead) (hdrop _ hlt)
  · -- all digits stand behind the point
    have hfraction : AreDigits
        (List.replicate (-((digits.length : Int) + power)).toNat '0' ++ digits) := by
      refine ⟨List.append_ne_nil_of_right_ne_nil _ hdigits.1, ?_⟩
      intro c hc
      rcases List.mem_append.mp hc with hc | hc
      · exact hzeros _ c hc
      · exact hdigits.2 c hc
    exact isLiteral_point (areDigits_toDigits 0) (fun _ => rfl) hfraction
  · -- an exponent follows
    match digits, hdigits, hzero, hdrop, htake with
    | [], hdigits, _, _, _ => exact absurd rfl hdigits.1
    | [digit], hdigits, hzero, _, _ =>
      have h := isLiteral_append none (some (([digit].length : Int) + power - 1)) hdigits
        (fun h => absurd h hzero) (fun ds hds => by cases hds)
      exact h
    | digit :: next :: digits, _, _, hdrop, htake =>
      obtain ⟨hleft, hhead⟩ := htake 1 (by decide) (by simp)
      have h := isLiteral_append (some ((digit :: next :: digits).drop 1))
        (some (((digit :: next :: digits).length : Int) + power - 1)) hleft
        (fun h => absurd h hhead) (areDigits_of_mem_some (hdrop 1 (by simp)))
      exact h

/-- The text of a double is a number with or without a sign. -/
theorem exists_text (x : Binary64) :
    ∃ body, IsLiteral body ∧ x.text = (if x.negative then ['-'] else []) ++ body := by
  unfold text
  by_cases hx : x.mantissa = 0
  · have hzero : AreDigits ['0'] := areDigits_toDigits 0
    exact ⟨_, isLiteral_point hzero (fun _ => rfl) hzero, if_pos hx⟩
  · have h := isLiteral_layout x.shortest.2 (areDigits_toDigits x.shortest.1)
      (Digit.head?_toDigits (shortest_ne_zero hx))
    exact ⟨_, h, if_neg hx⟩

end Binary64

/-! ### Numbers -/

/-- The text of a number is one with or without a sign. -/
theorem Json.Number.exists_chars (n : Json.Number) :
    ∃ (negative : Bool) (body : List Char), Draft.IsLiteral body ∧
      n.chars = (if negative then ['-'] else []) ++ body := by
  cases n with
  | integer i =>
    have h := Draft.isLiteral_append none none (Draft.areDigits_toDigits i.natAbs)
      Digit.toDigits_of_head? (fun ds hds => by cases hds)
    rw [Draft.fractionChars, Draft.exponentChars, List.append_nil, List.append_nil] at h
    refine ⟨decide (i < 0), _, h, ?_⟩
    show integerChars i = _
    unfold integerChars
    by_cases hneg : i < 0
    · rw [if_pos hneg, decide_eq_true hneg]
      rfl
    · rw [if_neg hneg, decide_eq_false hneg]
      rfl
  | decimal x =>
    obtain ⟨body, hbody, htext⟩ := x.exists_text
    exact ⟨x.negative, body, hbody, htext⟩

namespace Draft

theorem isSpace_of_isDigit {c : Char} (h : c.isDigit = true) : isSpace c = false := by
  unfold isSpace
  simp only [Bool.or_eq_false_iff, beq_eq_false_iff_ne]
  refine ⟨⟨⟨?_, ?_⟩, ?_⟩, ?_⟩ <;> rintro rfl <;> cases h

theorem readValue_of_isDigit {c : Char} (fuel : ℕ) (chars : List Char) (h : c.isDigit = true) :
    readValue (fuel + 1) (c :: chars) = readNumber false (c :: chars) := by
  have hskip : skipSpace (c :: chars) = c :: chars :=
    List.dropWhile_cons_of_neg (by rw [isSpace_of_isDigit h]; exact Bool.false_ne_true)
  have hne (d : Char) (hd : d.isDigit = false) : c ≠ d := by
    rintro rfl
    rw [h] at hd
    cases hd
  rw [readValue, hskip]
  split <;> rename_i heq
  · cases heq
  iterate 7 exact absurd (List.cons.inj heq).1 (hne _ rfl)
  · obtain ⟨rfl, rfl⟩ := List.cons.inj heq
    rw [Digit.decimal?_of_isDigit h]
    rfl

theorem readNumber_of_isLiteral {body : List Char} (negative : Bool) (h : IsLiteral body) :
    ∃ reading, ∀ rest, EndsNumber rest →
      readNumber negative (body ++ rest) = (.number reading none, some rest) := by
  obtain ⟨l, hl⟩ := h.2 negative
  cases hnumber : l.number? with
  | none =>
    refine ⟨.error .malformed, fun rest hrest => ?_⟩
    unfold readNumber
    rw [hl rest hrest]
    simp only [hnumber]
  | some n =>
    refine ⟨.ok n, fun rest hrest => ?_⟩
    unfold readNumber
    rw [hl rest hrest]
    simp only [hnumber]

/-- What is read of the text of a number. -/
def ofNumber (n : Json.Number) : Draft := (readValue 1 n.chars).1

theorem exists_readValue_number (n : Json.Number) :
    ∃ reading, ∀ fuel rest, EndsNumber rest →
      readValue (fuel + 1) (n.chars ++ rest) = (.number reading none, some rest) := by
  obtain ⟨negative, body, hbody, hchars⟩ := n.exists_chars
  obtain ⟨reading, hreading⟩ := readNumber_of_isLiteral negative hbody
  refine ⟨reading, fun fuel rest hrest => ?_⟩
  rw [hchars, ← hreading rest hrest]
  cases negative with
  | true => rfl
  | false =>
    obtain ⟨c, digits, rfl, hc⟩ := hbody.1
    exact readValue_of_isDigit fuel _ hc

/-- **Numbers**: the text of a number is read up to its end, wherever a number may end. -/
theorem readValue_number (n : Json.Number) (fuel : ℕ) {rest : List Char} (h : EndsNumber rest) :
    readValue (fuel + 1) (n.chars ++ rest) = (ofNumber n, some rest) := by
  obtain ⟨reading, hreading⟩ := exists_readValue_number n
  have halone := hreading 0 [] endsNumber_nil
  rw [List.append_nil] at halone
  rw [hreading fuel rest h, ofNumber, halone]

/-- A number can be passed over, whether it is in the range of doubles or not. -/
theorem skip_ofNumber (n : Json.Number) : (ofNumber n).skip = none := by
  obtain ⟨reading, hreading⟩ := exists_readValue_number n
  have halone := hreading 0 [] endsNumber_nil
  rw [List.append_nil] at halone
  rw [ofNumber, halone]
  rfl

/-! ### Integers -/

theorem absorb_append_singleton {s t d : ℕ} {digits : List ℕ} (h : absorb s digits = (t, []))
    (hd : 10 * t + d < 0x10000000000000000) : absorb s (digits ++ [d]) = (10 * t + d, []) := by
  induction digits generalizing s with
  | nil =>
    obtain ⟨rfl, -⟩ := Prod.mk.inj h
    show absorb s [d] = _
    rw [absorb, if_pos hd, absorb]
  | cons c digits ih =>
    rw [absorb] at h
    rw [List.cons_append, absorb]
    split_ifs at h with hc
    · rw [if_pos hc]
      exact ih h
    · cases h

/-- The digits of a number of 64 bits are all taken into its significand. -/
theorem absorb_toDigits {n : ℕ} (h : n < 0x10000000000000000) :
    absorb 0 (Digit.values (Nat.toDigits 10 n)) = (n, []) := by
  induction n using Nat.strongRecOn with
  | ind n ih =>
    have hdigit {d : ℕ} (hd : d < 10) : d.digitChar.toNat - 48 = d := by
      rw [Nat.toNat_digitChar_of_lt_ten hd]
      omega
    by_cases hlt : n < 10
    · rw [Nat.toDigits_of_lt_base hlt]
      show absorb 0 [n.digitChar.toNat - 48] = _
      rw [hdigit hlt, absorb, if_pos (by omega), absorb]
      simp
    · have hinit := ih (n / 10) (by omega) (by omega)
      have hsplit : 10 * (n / 10) + n % 10 = n := by omega
      rw [Nat.toDigits_of_base_le (by decide) (Nat.not_lt.mp hlt), Digit.values, List.map_append]
      show absorb 0 (Digit.values _ ++ [(n % 10).digitChar.toNat - 48]) = _
      rw [hdigit (Nat.mod_lt n (by decide)), absorb_append_singleton hinit (by omega), hsplit]

/-- **Integers** of 64 bits are read as themselves. -/
theorem ofNumber_integer {i : Int} (hlow : -0x8000000000000000 ≤ i)
    (hhigh : i < 0x10000000000000000) :
    ofNumber (.integer i) = .number (.ok (.integer i)) none := by
  have habsorb := absorb_toDigits (n := i.natAbs) (by omega)
  have hliteral (negative : Bool) : readLiteral negative (Nat.toDigits 10 i.natAbs) =
      .ok (⟨negative, Digit.values (Nat.toDigits 10 i.natAbs), none, none⟩, []) := by
    have h := readLiteral_append negative none none (areDigits_toDigits i.natAbs)
      Digit.toDigits_of_head? (fun ds hds => by cases hds) endsNumber_nil
    rwa [fractionChars, exponentChars, List.append_nil, List.append_nil, List.append_nil] at h
  unfold ofNumber
  show (readValue 1 (Json.integerChars i)).1 = _
  unfold Json.integerChars
  split_ifs with hneg
  · show (readNumber true (Nat.toDigits 10 i.natAbs)).1 = _
    have hnumber : Literal.number? ⟨true, Digit.values (Nat.toDigits 10 i.natAbs), none, none⟩ =
        some (.integer i) := by
      have hsignificand : ¬(i.natAbs = 0 ∨ 0x8000000000000000 < i.natAbs) := by omega
      unfold Literal.number?
      simp only [habsorb, hsignificand, if_false, Bool.true_eq_false]
      congr 2
      omega
    unfold readNumber
    rw [hliteral]
    simp only [hnumber]
  · have hnumber : Literal.number? ⟨false, Digit.values (Nat.toDigits 10 i.natAbs), none, none⟩ =
        some (.integer i) := by
      unfold Literal.number?
      simp only [habsorb, if_true]
      congr 2
      omega
    obtain ⟨c, digits, hchars⟩ := List.exists_cons_of_ne_nil (areDigits_toDigits i.natAbs).1
    have hc := (areDigits_toDigits i.natAbs).2 c (by rw [hchars]; exact List.mem_cons_self)
    rw [hchars, readValue_of_isDigit 0 digits hc, ← hchars]
    unfold readNumber
    rw [hliteral]
    simp only [hnumber]

end Draft

end QuorumVault
