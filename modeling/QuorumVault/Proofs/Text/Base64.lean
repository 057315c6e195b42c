import Mathlib.Tactic
import QuorumVault.Text.Base64

/-!
# Correctness of `Base64`

`decode?_eq_some_iff`: a text is read as a byte string iff it is what `encode` writes for it, so
every byte string has exactly one text.  It holds for the alphabets in which every character is read
as the number that it was written for (`Unambiguous`); `standard` and `address` are such alphabets.

The proof goes group by group: `group?` and `lastGroup?` invert `encodeChars` on strings of at most
three bytes, and `decodeChars?` follows the recursion of `encodeChars`.
-/

namespace QuorumVault.Base64

/-! ### Alphabets -/

/-- Every character is read as the number that it was written for, and the filler is not read. -/
structure Unambiguous (alphabet : Base64) : Prop where
  /-- Characters are read as the numbers that they were written for. -/
  value?_symbol : ∀ n < 64, alphabet.value? (alphabet.symbol n) = some n
  /-- The filler is no character of the alphabet. -/
  value?_filler : alphabet.value? '=' = none

theorem unambiguous_standard : Unambiguous standard := ⟨by decide, by decide⟩

theorem unambiguous_address : Unambiguous address := ⟨by decide, by decide⟩

variable {alphabet : Base64}

/-- Whatever is read as a number is the character that is written for it. -/
theorem symbol_of_value? {c : Char} {n : ℕ} (h : alphabet.value? c = some n) :
    n < 64 ∧ alphabet.symbol n = c := by
  -- in each range the character is the one that stands as far from its first as the number says
  have hc : ∀ m : ℕ, m = c.toNat → Char.ofNat m = c := by
    rintro m rfl
    exact Char.ofNat_toNat c
  unfold value? at h
  simp only [Char.le_def, UInt32.le_iff_toNat_le] at h
  change (if 65 ≤ c.toNat ∧ c.toNat ≤ 90 then _ else if 97 ≤ c.toNat ∧ c.toNat ≤ 122 then _ else
    if 48 ≤ c.toNat ∧ c.toNat ≤ 57 then _ else _) = some n at h
  unfold symbol
  split_ifs at h with h1 h2 h3 h4 h5 <;> obtain rfl := Option.some.inj h
  · exact ⟨by omega, by rw [if_pos (by omega)]; exact hc _ (by omega)⟩
  · exact ⟨by omega, by rw [if_neg (by omega), if_pos (by omega)]; exact hc _ (by omega)⟩
  · refine ⟨by omega, ?_⟩
    rw [if_neg (by omega), if_neg (by omega), if_pos (by omega)]
    exact hc _ (by omega)
  · exact ⟨by omega, h4.symm⟩
  · exact ⟨by omega, h5.symm⟩

/-- The filler is written for no number. -/
theorem Unambiguous.symbol_ne_filler (ha : Unambiguous alphabet) {n : ℕ} (hn : n < 64) :
    alphabet.symbol n ≠ '=' := by
  intro h
  have := ha.value?_symbol n hn
  rw [h, ha.value?_filler] at this
  cases this

/-! ### Groups -/

/-- The sextets of three bytes give these bytes. -/
private theorem bytes_of_sextets {a b c : ℕ} (hb : b < 256) (hc : c < 256) :
    a / 4 * 4 + (a % 4 * 16 + b / 16) / 16 = a ∧
      (a % 4 * 16 + b / 16) % 16 * 16 + (b % 16 * 4 + c / 64) / 4 = b ∧
      (b % 16 * 4 + c / 64) % 4 * 64 + c % 64 = c := by
  omega

/-- Three bytes are read back from the group that is written for them. -/
theorem group?_encode (ha : Unambiguous alphabet) (a b c : UInt8) :
    alphabet.group? (alphabet.symbol (a.toNat / 4))
      (alphabet.symbol (a.toNat % 4 * 16 + b.toNat / 16))
      (alphabet.symbol (b.toNat % 16 * 4 + c.toNat / 64)) (alphabet.symbol (c.toNat % 64)) =
      some [a, b, c] := by
  have hA := a.toNat_lt
  have hB := b.toNat_lt
  have hC := c.toNat_lt
  obtain ⟨h1, h2, h3⟩ := bytes_of_sextets (a := a.toNat) hB hC
  unfold group?
  rw [ha.value?_symbol _ (by omega), ha.value?_symbol _ (by omega), ha.value?_symbol _ (by omega),
    ha.value?_symbol _ (by omega)]
  simp only [Option.bind_eq_bind, Option.bind_some, Option.pure_def, h1, h2, h3, UInt8.ofNat_toNat]

/-- Up to three bytes are read back from the last group that is written for them. -/
theorem lastGroup?_encode (ha : Unambiguous alphabet) :
    (∀ a : UInt8, alphabet.lastGroup? (alphabet.symbol (a.toNat / 4))
      (alphabet.symbol (a.toNat % 4 * 16)) '=' '=' = some [a]) ∧
    (∀ a b : UInt8, alphabet.lastGroup? (alphabet.symbol (a.toNat / 4))
      (alphabet.symbol (a.toNat % 4 * 16 + b.toNat / 16)) (alphabet.symbol (b.toNat % 16 * 4)) '=' =
      some [a, b]) ∧
    ∀ a b c : UInt8, alphabet.lastGroup? (alphabet.symbol (a.toNat / 4))
      (alphabet.symbol (a.toNat % 4 * 16 + b.toNat / 16))
      (alphabet.symbol (b.toNat % 16 * 4 + c.toNat / 64)) (alphabet.symbol (c.toNat % 64)) =
      some [a, b, c] := by
  refine ⟨fun a => ?_, fun a b => ?_, fun a b c => ?_⟩
  · have hA := a.toNat_lt
    have h1 : a.toNat / 4 * 4 + a.toNat % 4 * 16 / 16 = a.toNat := by omega
    unfold lastGroup?
    rw [ha.value?_symbol _ (by omega), ha.value?_symbol _ (by omega)]
    simp only [Option.bind_eq_bind, Option.bind_some, if_true, h1, UInt8.ofNat_toNat]
    rw [if_pos (by omega)]
  · have hA := a.toNat_lt
    have hB := b.toNat_lt
    have h1 : a.toNat / 4 * 4 + (a.toNat % 4 * 16 + b.toNat / 16) / 16 = a.toNat := by omega
    have h2 : (a.toNat % 4 * 16 + b.toNat / 16) % 16 * 16 + b.toNat % 16 * 4 / 4 = b.toNat := by
      omega
    unfold lastGroup?
    rw [ha.value?_symbol _ (by omega), ha.value?_symbol _ (by omega),
      ha.value?_symbol _ (by omega)]
    simp only [Option.bind_eq_bind, Option.bind_some, if_true,
      if_neg (ha.symbol_ne_filler (n := b.toNat % 16 * 4) (by omega)), h1, h2, UInt8.ofNat_toNat]
    rw [if_pos (by omega)]
  · have hA := a.toNat_lt
    have hB := b.toNat_lt
    have hC := c.toNat_lt
    obtain ⟨h1, h2, h3⟩ := bytes_of_sextets (a := a.toNat) hB hC
    unfold lastGroup?
    rw [ha.value?_symbol _ (by omega), ha.value?_symbol _ (by omega),
      ha.value?_symbol _ (by omega), ha.value?_symbol _ (by omega)]
    simp only [Option.bind_eq_bind, Option.bind_some,
      if_neg (ha.symbol_ne_filler (n := c.toNat % 64) (by omega)), h1, h2, h3, UInt8.ofNat_toNat]

/-- Four numbers below sixty-four are written again for the bytes that they give. -/
private theorem sextets_of_bytes {w x y z : ℕ} (hw : w < 64) (hx : x < 64) (hy : y < 64)
    (hz : z < 64) :
    (UInt8.ofNat (w * 4 + x / 16)).toNat / 4 = w ∧
      (UInt8.ofNat (w * 4 + x / 16)).toNat % 4 * 16 +
        (UInt8.ofNat (x % 16 * 16 + y / 4)).toNat / 16 = x ∧
      (UInt8.ofNat (x % 16 * 16 + y / 4)).toNat % 16 * 4 +
        (UInt8.ofNat (y % 4 * 64 + z)).toNat / 64 = y ∧
      (UInt8.ofNat (y % 4 * 64 + z)).toNat % 64 = z := by
  simp only [UInt8.toNat_ofNat']
  omega

/-- A group that is read is the one that is written for its three bytes. -/
theorem encodeChars_of_group? {w x y z : Char} {bytes : Bytes}
    (h : alphabet.group? w x y z = some bytes) (rest : Bytes) :
    alphabet.encodeChars (bytes ++ rest) = w :: x :: y :: z :: alphabet.encodeChars rest := by
  unfold group? at h
  simp only [Option.bind_eq_bind, Option.bind_eq_some_iff, Option.pure_def, Option.some.injEq] at h
  obtain ⟨w', hw, x', hx, y', hy, z', hz, rfl⟩ := h
  obtain ⟨hw', rfl⟩ := symbol_of_value? hw
  obtain ⟨hx', rfl⟩ := symbol_of_value? hx
  obtain ⟨hy', rfl⟩ := symbol_of_value? hy
  obtain ⟨hz', rfl⟩ := symbol_of_value? hz
  obtain ⟨h1, h2, h3, h4⟩ := sextets_of_bytes hw' hx' hy' hz'
  simp only [List.cons_append, List.nil_append, encodeChars, h1, h2, h3, h4]

/-- A last group that is read is the one that is written for its bytes. -/
theorem encodeChars_of_lastGroup? {w x y z : Char} {bytes : Bytes}
    (h : alphabet.lastGroup? w x y z = some bytes) : alphabet.encodeChars bytes = [w, x, y, z] := by
  unfold lastGroup? at h
  simp only [Option.bind_eq_bind, Option.bind_eq_some_iff] at h
  obtain ⟨w', hw, x', hx, h⟩ := h
  obtain ⟨hw', rfl⟩ := symbol_of_value? hw
  obtain ⟨hx', rfl⟩ := symbol_of_value? hx
  split_ifs at h with hz hy hx0
  · -- one byte: the four unused bits are zero
    obtain rfl := Option.some.inj h
    subst hz hy
    have h1 : (UInt8.ofNat (w' * 4 + x' / 16)).toNat / 4 = w' := by
      rw [UInt8.toNat_ofNat']; omega
    have h2 : (UInt8.ofNat (w' * 4 + x' / 16)).toNat % 4 * 16 = x' := by
      rw [UInt8.toNat_ofNat']; omega
    simp only [encodeChars, h1, h2]
  · -- two bytes: the two unused bits are zero
    simp only [Option.bind_eq_some_iff] at h
    obtain ⟨y', hy', h⟩ := h
    obtain ⟨hy'', rfl⟩ := symbol_of_value? hy'
    split_ifs at h with hy0
    obtain rfl := Option.some.inj h
    subst hz
    obtain ⟨h1, h2, h3, -⟩ := sextets_of_bytes hw' hx' hy'' (z := 0) (by omega)
    have h4 : (UInt8.ofNat (x' % 16 * 16 + y' / 4)).toNat % 16 * 4 = y' := by
      rw [UInt8.toNat_ofNat']; omega
    simp only [encodeChars, h1, h2, h4]
  · -- three bytes: the group is as good as one that others follow
    simp only [Option.bind_eq_some_iff] at h
    obtain ⟨y', hy', z', hz', h⟩ := h
    have hgroup : alphabet.group? (alphabet.symbol w') (alphabet.symbol x') y z = some bytes := by
      rw [group?, hw, hx, hy', hz']
      exact h
    obtain rfl := Option.some.inj h
    exact encodeChars_of_group? hgroup []

/-! ### Texts -/

theorem encodeChars_ne_nil {bytes : Bytes} (h : bytes ≠ []) : alphabet.encodeChars bytes ≠ [] := by
  match bytes, h with
  | [_], _ => simp [encodeChars]
  | [_, _], _ => simp [encodeChars]
  | _ :: _ :: _ :: _, _ => simp [encodeChars]

theorem decodeChars?_encodeChars (ha : Unambiguous alphabet) (bytes : Bytes) :
    alphabet.decodeChars? (alphabet.encodeChars bytes) = some bytes := by
  obtain ⟨h1, h2, h3⟩ := lastGroup?_encode ha
  induction bytes using encodeChars.induct with
  | case1 => rfl
  | case2 a => exact h1 a
  | case3 a b => exact h2 a b
  | case4 a b c rest ih =>
    rw [encodeChars]
    cases rest with
    | nil => exact h3 a b c
    | cons d rest =>
      rw [decodeChars?, group?_encode ha, ih]
      · rfl
      · exact fun hnil => encodeChars_ne_nil (List.cons_ne_nil d rest) hnil

theorem encodeChars_of_decodeChars? {chars : List Char} {bytes : Bytes}
    (h : alphabet.decodeChars? chars = some bytes) : alphabet.encodeChars bytes = chars := by
  induction chars using decodeChars?.induct generalizing bytes with
  | case1 => cases h; rfl
  | case2 w x y z => exact encodeChars_of_lastGroup? h
  | case3 w x y z rest hrest ih =>
    rw [decodeChars?] at h
    · simp only [Option.bind_eq_bind, Option.bind_eq_some_iff, Option.pure_def,
        Option.some.injEq] at h
      obtain ⟨head, hhead, tail, htail, rfl⟩ := h
      rw [encodeChars_of_group? hhead, ih htail]
    · exact hrest
  | case4 chars h0 h1 h2 =>
    -- the length is no multiple of four
    rw [decodeChars?] at h
    · cases h
    · exact h0
    · exact h1
    · exact h2

/-- **Exactness**: a text is read as a byte string iff it is the one that is written for it. -/
theorem decode?_eq_some_iff (ha : Unambiguous alphabet) {text : String} {bytes : Bytes} :
    alphabet.decode? text = some bytes ↔ text = alphabet.encode bytes := by
  unfold decode? encode
  constructor
  · intro h
    rw [encodeChars_of_decodeChars? h, String.ofList_toList]
  · rintro rfl
    rw [String.toList_ofList, decodeChars?_encodeChars ha]

end QuorumVault.Base64
