import Mathlib.Tactic
import QuorumVault.Attestation.Nonce
import QuorumVault.Key.Exchange
import QuorumVault.Proofs.Json.Record
import QuorumVault.Proofs.Text.Base64
import QuorumVault.Text.Blank

/-!
# The texts of bytes

Byte strings, public keys and nonces are read from the texts that are written for them and from no
others, so they have one text each (`Base64.texts_canonical`).  What these texts look like is told
without reference to the writer in `Base64.IsWritten`: groups of four characters of the alphabet, of
which the last may end in one or two fillers, with no bits set that stand for no byte.
-/

namespace QuorumVault

namespace Base64

variable {alphabet : Base64} {chars : List Char} {bytes : Bytes}

/-! ### The form of the texts -/

/-- Characters that are written for some bytes. -/
inductive IsWritten (alphabet : Base64) : List Char → Prop where
  | nil : IsWritten alphabet []
  /-- A last group for one byte: four bits of its second character are unused. -/
  | one {m n : ℕ} (hm : m < 64) (hn : n < 64) (hunused : n % 16 = 0) :
    IsWritten alphabet [alphabet.symbol m, alphabet.symbol n, '=', '=']
  /-- A last group for two bytes: two bits of its third character are unused. -/
  | two {m n p : ℕ} (hm : m < 64) (hn : n < 64) (hp : p < 64) (hunused : p % 4 = 0) :
    IsWritten alphabet [alphabet.symbol m, alphabet.symbol n, alphabet.symbol p, '=']
  | group {m n p q : ℕ} {rest : List Char} (hm : m < 64) (hn : n < 64) (hp : p < 64)
      (hq : q < 64) (hrest : IsWritten alphabet rest) :
    IsWritten alphabet (alphabet.symbol m :: alphabet.symbol n :: alphabet.symbol p ::
      alphabet.symbol q :: rest)

theorem isWritten_encodeChars (bytes : Bytes) :
    IsWritten alphabet (alphabet.encodeChars bytes) := by
  induction bytes using encodeChars.induct with
  | case1 => exact .nil
  | case2 a =>
    have ha := a.toNat_lt
    exact .one (by omega) (by omega) (by omega)
  | case3 a b =>
    have ha := a.toNat_lt
    have hb := b.toNat_lt
    exact .two (by omega) (by omega) (by omega) (by omega)
  | case4 a b c rest ih =>
    have ha := a.toNat_lt
    have hb := b.toNat_lt
    have hc := c.toNat_lt
    rw [encodeChars]
    exact .group (by omega) (by omega) (by omega) (by omega) ih

/-- The form of a text says that it is the text of some bytes. -/
theorem IsWritten.exists_encodeChars (ha : Unambiguous alphabet) (h : IsWritten alphabet chars) :
    ∃ bytes, alphabet.encodeChars bytes = chars := by
  induction h with
  | nil => exact ⟨[], rfl⟩
  | @one m n hm hn hunused =>
    have hread : alphabet.lastGroup? (alphabet.symbol m) (alphabet.symbol n) '=' '=' =
        some [UInt8.ofNat (m * 4 + n / 16)] := by
      simp only [lastGroup?, ha.value?_symbol m hm, ha.value?_symbol n hn, Option.bind_eq_bind,
        Option.bind_some, if_true, if_pos hunused]
    exact ⟨_, encodeChars_of_lastGroup? hread⟩
  | @two m n p hm hn hp hunused =>
    have hread : alphabet.lastGroup? (alphabet.symbol m) (alphabet.symbol n) (alphabet.symbol p)
        '=' = some [UInt8.ofNat (m * 4 + n / 16), UInt8.ofNat (n % 16 * 16 + p / 4)] := by
      simp only [lastGroup?, ha.value?_symbol m hm, ha.value?_symbol n hn, ha.value?_symbol p hp,
        Option.bind_eq_bind, Option.bind_some, if_true, if_neg (ha.symbol_ne_filler hp),
        if_pos hunused]
    exact ⟨_, encodeChars_of_lastGroup? hread⟩
  | @group m n p q rest hm hn hp hq hrest ih =>
    obtain ⟨bytes, rfl⟩ := ih
    have hread : alphabet.group? (alphabet.symbol m) (alphabet.symbol n) (alphabet.symbol p)
        (alphabet.symbol q) = some [UInt8.ofNat (m * 4 + n / 16),
          UInt8.ofNat (n % 16 * 16 + p / 4), UInt8.ofNat (p % 4 * 64 + q)] := by
      simp only [group?, ha.value?_symbol m hm, ha.value?_symbol n hn, ha.value?_symbol p hp,
        ha.value?_symbol q hq, Option.bind_eq_bind, Option.bind_some, Option.pure_def]
    exact ⟨_, encodeChars_of_group? hread bytes⟩

theorem isWritten_toList_iff (ha : Unambiguous alphabet) {text : String} :
    IsWritten alphabet text.toList ↔ ∃ bytes, text = alphabet.encode bytes := by
  constructor
  · intro h
    obtain ⟨bytes, hbytes⟩ := h.exists_encodeChars ha
    refine ⟨bytes, ?_⟩
    rw [encode, hbytes, String.ofList_toList]
  · rintro ⟨bytes, rfl⟩
    rw [encode, String.toList_ofList]
    exact isWritten_encodeChars bytes

namespace IsWritten

theorem four_dvd_length (h : IsWritten alphabet chars) : 4 ∣ chars.length := by
  induction h with
  | nil => exact Nat.dvd_zero 4
  | one | two => exact Nat.dvd_refl 4
  | group _ _ _ _ _ ih => exact (Nat.dvd_add_self_right (m := 4)).mpr ih

theorem mem_alphabet (h : IsWritten alphabet chars) {c : Char} (hc : c ∈ chars) :
    c = '=' ∨ ∃ n < 64, c = alphabet.symbol n := by
  induction h with
  | nil => cases hc
  | one hm hn hunused =>
    simp only [List.mem_cons, List.not_mem_nil, or_false] at hc
    rcases hc with rfl | rfl | rfl | rfl
    · exact .inr ⟨_, hm, rfl⟩
    · exact .inr ⟨_, hn, rfl⟩
    · exact .inl rfl
    · exact .inl rfl
  | two hm hn hp hunused =>
    simp only [List.mem_cons, List.not_mem_nil, or_false] at hc
    rcases hc with rfl | rfl | rfl | rfl
    · exact .inr ⟨_, hm, rfl⟩
    · exact .inr ⟨_, hn, rfl⟩
    · exact .inr ⟨_, hp, rfl⟩
    · exact .inl rfl
  | group hm hn hp hq hrest ih =>
    simp only [List.mem_cons] at hc
    rcases hc with rfl | rfl | rfl | rfl | hc
    · exact .inr ⟨_, hm, rfl⟩
    · exact .inr ⟨_, hn, rfl⟩
    · exact .inr ⟨_, hp, rfl⟩
    · exact .inr ⟨_, hq, rfl⟩
    · exact ih hc

theorem count_filler_le (ha : Unambiguous alphabet) (h : IsWritten alphabet chars) :
    chars.count '=' ≤ 2 := by
  have hsymbol {n : ℕ} (hn : n < 64) : (alphabet.symbol n == '=') = false :=
    beq_eq_false_iff_ne.mpr (ha.symbol_ne_filler hn)
  induction h with
  | nil => exact Nat.zero_le 2
  | one hm hn hunused => simp [List.count_cons, hsymbol hm, hsymbol hn]
  | two hm hn hp hunused => simp [List.count_cons, hsymbol hm, hsymbol hn, hsymbol hp]
  | group hm hn hp hq hrest ih =>
    simpa [List.count_cons, hsymbol hm, hsymbol hn, hsymbol hp, hsymbol hq] using ih

/-- Fillers can neither be added nor left out. -/
theorem eq_zero_of_append_fillers (ha : Unambiguous alphabet) {n : ℕ} (h : IsWritten alphabet chars)
    (hmore : IsWritten alphabet (chars ++ List.replicate n '=')) : n = 0 := by
  have hlength :=
    (Nat.dvd_add_right h.four_dvd_length).mp (List.length_append ▸ hmore.four_dvd_length)
  have hcount := hmore.count_filler_le ha
  rw [List.length_replicate] at hlength
  rw [List.count_append, List.count_replicate_self] at hcount
  omega

/-- The bits of the last character that stand for no byte are zero. -/
theorem unused_eq_zero (ha : Unambiguous alphabet) {n : ℕ} (hn : n < 64)
    (h : IsWritten alphabet chars) :
    ([alphabet.symbol n, '='] <:+ chars → n % 4 = 0) ∧
      ([alphabet.symbol n, '=', '='] <:+ chars → n % 16 = 0) := by
  have hinj {m : ℕ} (hm : m < 64) (heq : alphabet.symbol n = alphabet.symbol m) : n = m := by
    apply Option.some.inj
    rw [← ha.value?_symbol n hn, heq, ha.value?_symbol m hm]
  have hfiller {m : ℕ} (hm : m < 64) : alphabet.symbol m ≠ '=' := ha.symbol_ne_filler hm
  have hends {front tail tail' : List Char} (h : tail <:+ front ++ tail')
      (hlength : tail.length = tail'.length) : tail = tail' := by
    obtain ⟨before, hbefore⟩ := h
    exact List.append_inj_right' hbefore hlength
  induction h with
  | nil => simp
  | one hm hk hunused =>
    constructor
    · intro h
      have hlast := hends (show [alphabet.symbol n, '='] <:+ [_, _] ++ ['=', '='] from h) rfl
      exact absurd (List.cons.inj hlast).1 (hfiller hn)
    · intro h
      have hlast := hends (show [alphabet.symbol n, '=', '='] <:+ [_] ++ [_, '=', '='] from h) rfl
      rw [hinj hk (List.cons.inj hlast).1]
      exact hunused
  | two hm hk hp hunused =>
    constructor
    · intro h
      have hlast := hends (show [alphabet.symbol n, '='] <:+ [_, _] ++ [_, '='] from h) rfl
      rw [hinj hp (List.cons.inj hlast).1]
      exact hunused
    · intro h
      have hlast := hends (show [alphabet.symbol n, '=', '='] <:+ [_] ++ [_, _, '='] from h) rfl
      exact absurd (List.cons.inj (List.cons.inj hlast).2).1.symm (hfiller hp)
  | @group m k p q rest hm hk hp hq hrest ih =>
    -- the last characters belong to the groups that follow, or the group that is last has no filler
    have hshort {tail : List Char} (htail : tail.length ≤ 4) (hlast : tail.getLast? = some '=')
        (hsuffix : tail <:+ alphabet.symbol m :: alphabet.symbol k :: alphabet.symbol p ::
          alphabet.symbol q :: rest) : tail <:+ rest := by
      cases rest with
      | nil =>
        obtain ⟨front, hfront⟩ := hsuffix
        have hend := congrArg List.getLast? hfront
        rw [List.getLast?_append, hlast] at hend
        exact absurd (Option.some.inj hend).symm (hfiller hq)
      | cons c rest =>
        have hlength : 4 ≤ (c :: rest).length :=
          Nat.le_of_dvd (Nat.succ_pos _) hrest.four_dvd_length
        exact List.suffix_of_suffix_length_le hsuffix
          (List.suffix_append [_, _, _, _] (c :: rest)) (htail.trans hlength)
    exact ⟨fun h => ih.1 (hshort (Nat.le_add_left 2 2) rfl h),
      fun h => ih.2 (hshort (Nat.le_succ 3) rfl h)⟩

theorem isBlank_eq_false (h : IsWritten standard chars) {c : Char} (hc : c ∈ chars) :
    Text.isBlank c = false := by
  have hsymbols : ∀ n < 64, Text.isBlank (standard.symbol n) = false := by decide
  rcases h.mem_alphabet hc with rfl | ⟨n, hn, rfl⟩
  · rfl
  · exact hsymbols n hn

/-- The two characters in which the other alphabet differs do not occur. -/
theorem ne_of_address (h : IsWritten standard chars) {c : Char} (hc : c ∈ chars) :
    c ≠ address.char62 ∧ c ≠ address.char63 := by
  have hsymbols : ∀ n < 64, standard.symbol n ≠ '-' ∧ standard.symbol n ≠ '_' := by decide
  rcases h.mem_alphabet hc with rfl | ⟨n, hn, rfl⟩
  · decide
  · exact hsymbols n hn

end IsWritten

/-! ### Readers -/

theorem octets?_eq_ok_iff {n : ℕ} {text : String} {octets : Octets n} :
    octets? n text = .ok octets ↔ text = standard.encode octets.toList := by
  rw [← decode?_eq_some_iff unambiguous_standard, octets?]
  cases hread : standard.decode? text with
  | none => simp
  | some bytes =>
    dsimp only
    constructor
    · intro h
      split at h
      · rename_i found hfound
        obtain rfl := Except.ok.inj h
        rw [Octets.toList_ofBytes? hfound]
      · cases h
    · intro h
      obtain rfl := Option.some.inj h
      rw [Octets.ofBytes?_toList]

end Base64

theorem Decode.bytes_string_eq_ok_iff {text : String} {b : Bytes} {skipping : Option Json.Fault} :
    bytes (.string (.ok text) skipping) = .ok b ↔ text = Base64.standard.encode b := by
  rw [← Base64.decode?_eq_some_iff Base64.unambiguous_standard]
  simp only [bytes, Decode.text, textAs, ofReading, Bind.bind, Except.bind]
  cases Base64.standard.decode? text with
  | none => simp
  | some found => simp

theorem Decode.nullable_bytes_string_eq_ok_iff {text : String} {b : Bytes}
    {skipping : Option Json.Fault} :
    nullable bytes (.string (.ok text) skipping) = .ok (some b) ↔
      text = Base64.standard.encode b := by
  have hbytes : bytes (.string (.ok text) skipping) = .ok b ↔ text = Base64.standard.encode b :=
    bytes_string_eq_ok_iff
  have hpresent : nullable bytes (.string (.ok text) skipping) =
      (bytes (.string (.ok text) skipping)).map some := rfl
  rw [hpresent, ← hbytes]
  cases bytes (.string (.ok text) skipping) with
  | error fault => simp [Except.map]
  | ok found => simp [Except.map]

theorem PublicKey.ofText?_eq_ok_iff {text : String} {key : PublicKey} :
    ofText? text = .ok key ↔ key.text = text := by
  rw [PublicKey.text, eq_comm (b := text), ← Base64.octets?_eq_ok_iff, ofText?]
  obtain ⟨octets⟩ := key
  cases Base64.octets? 32 text with
  | error fault => simp
  | ok found => simp

theorem Nonce.ofText?_eq_ok_iff {text : String} {nonce : Nonce} :
    ofText? text = .ok nonce ↔ nonce.text = text := by
  rw [Nonce.text, Nonce.toBytes, eq_comm (b := text), ← Base64.octets?_eq_ok_iff, ofText?]
  obtain ⟨octets⟩ := nonce
  cases Base64.octets? 32 text with
  | error fault => simp
  | ok found => simp

/-- The texts of thirty-two bytes. -/
theorem Base64.exists_octets_iff {text : String} :
    (∃ octets : Octets 32, standard.encode octets.toList = text) ↔
      ∃ b : Bytes, b.length = 32 ∧ text = standard.encode b := by
  constructor
  · rintro ⟨octets, rfl⟩
    exact ⟨octets.toList, octets.length_toList, rfl⟩
  · rintro ⟨b, hlength, rfl⟩
    exact ⟨⟨b, hlength⟩, rfl⟩

/-! ### One text each -/

/-- **One text each.**  A text is read as a byte string, also where the member may be null, iff it
is the one that is written for it; so different texts are never read as the same bytes.  It is read
as a public key or a nonce iff it is written for thirty-two bytes, and it is the text of what has
been read.  The texts that are written for bytes are those of the form `Base64.IsWritten`: the
number of their characters is a multiple of four, none of these is white space or belongs to the
other alphabet only, no filler can be added or left out, and the unused bits are zero. -/
theorem Base64.texts_canonical :
    (∀ (text : String) (b : Bytes),
      (Decode.ofText (fun _ => Decode.bytes) (Json.string text).text = .ok b ↔
        text = standard.encode b) ∧
      (Decode.ofJson (fun _ => Decode.bytes) (.string text) = .ok b ↔ text = standard.encode b) ∧
      (Decode.ofText (fun _ => Decode.nullable Decode.bytes) (Json.string text).text =
        .ok (some b) ↔ text = standard.encode b)) ∧
    (∀ (text text' : String) (b : Bytes),
      Decode.ofText (fun _ => Decode.bytes) (Json.string text).text = .ok b →
        Decode.ofText (fun _ => Decode.bytes) (Json.string text').text = .ok b → text = text') ∧
    (∀ text, (∀ key, PublicKey.ofText? text = .ok key ↔ key.text = text) ∧
      ((∃ key, PublicKey.ofText? text = .ok key) ↔
        ∃ b : Bytes, b.length = 32 ∧ text = standard.encode b)) ∧
    (∀ text, (∀ nonce, Nonce.ofText? text = .ok nonce ↔ nonce.text = text) ∧
      ((∃ nonce, Nonce.ofText? text = .ok nonce) ↔
        ∃ b : Bytes, b.length = 32 ∧ text = standard.encode b)) ∧
    (∀ text : String, (∃ b, text = standard.encode b) ↔ IsWritten standard text.toList) ∧
    ∀ text : String, IsWritten standard text.toList →
      4 ∣ text.length ∧
      (∀ c ∈ text.toList, Text.isBlank c = false ∧ c ≠ address.char62 ∧ c ≠ address.char63) ∧
      (∀ n, IsWritten standard (text ++ String.ofList (List.replicate n '=')).toList → n = 0) ∧
      ∀ n < 64, ([standard.symbol n, '='] <:+ text.toList → n % 4 = 0) ∧
        ([standard.symbol n, '=', '='] <:+ text.toList → n % 16 = 0) := by
  have hbytes (text : String) (b : Bytes) :
      Decode.ofText (fun _ => Decode.bytes) (Json.string text).text = .ok b ↔
        text = standard.encode b := by
    rw [Decode.ofText_text]
    exact Decode.bytes_string_eq_ok_iff
  refine ⟨?_, ?_, ?_, ?_, ?_, ?_⟩
  · intro text b
    refine ⟨hbytes text b, Decode.bytes_string_eq_ok_iff, ?_⟩
    rw [Decode.ofText_text]
    exact Decode.nullable_bytes_string_eq_ok_iff
  · intro text text' b h h'
    rw [(hbytes text b).mp h, (hbytes text' b).mp h']
  · intro text
    refine ⟨fun key => PublicKey.ofText?_eq_ok_iff, ?_⟩
    simp only [PublicKey.ofText?_eq_ok_iff, ← exists_octets_iff]
    exact ⟨fun ⟨key, h⟩ => ⟨key.octets, h⟩, fun ⟨octets, h⟩ => ⟨⟨octets⟩, h⟩⟩
  · intro text
    refine ⟨fun nonce => Nonce.ofText?_eq_ok_iff, ?_⟩
    simp only [Nonce.ofText?_eq_ok_iff, ← exists_octets_iff]
    exact ⟨fun ⟨nonce, h⟩ => ⟨nonce.octets, h⟩, fun ⟨octets, h⟩ => ⟨⟨octets⟩, h⟩⟩
  · intro text
    exact (isWritten_toList_iff unambiguous_standard).symm
  · intro text h
    refine ⟨?_, ?_, ?_, ?_⟩
    · rw [← String.length_toList]
      exact h.four_dvd_length
    · intro c hc
      exact ⟨h.isBlank_eq_false hc, h.ne_of_address hc⟩
    · intro n hmore
      rw [String.toList_append, String.toList_ofList] at hmore
      exact h.eq_zero_of_append_fillers unambiguous_standard hmore
    · intro n hn
      exact h.unused_eq_zero unambiguous_standard hn

/-- One byte has one text: with other unused bits, without its fillers or in the other alphabet the
text is refused. -/
theorem Base64.texts_canonical_of_one_byte :
    Decode.ofText (fun _ => Decode.bytes) (Json.string "+A==").text = .ok [248] ∧
      (∀ text, Decode.ofText (fun _ => Decode.bytes) (Json.string text).text = .ok [248] →
        "+A==" = text) ∧
      IsWritten standard "+A==".toList ∧
      (∀ b, Decode.ofText (fun _ => Decode.bytes) (Json.string "+B==").text ≠ .ok b) ∧
      (∀ b, Decode.ofText (fun _ => Decode.bytes) (Json.string "+A").text ≠ .ok b) ∧
      (∀ b, Decode.ofText (fun _ => Decode.bytes) (Json.string "+A====").text ≠ .ok b) ∧
      (∀ b, Decode.ofText (fun _ => Decode.bytes) (Json.string "-A==").text ≠ .ok b) ∧
      ∀ b, Decode.ofText (fun _ => Decode.bytes) (Json.string "+ ==").text ≠ .ok b := by
  obtain ⟨hread, hinjective, -, -, hform, hrefused⟩ := texts_canonical
  have hone : Decode.ofText (fun _ => Decode.bytes) (Json.string "+A==").text = .ok [248] :=
    (hread "+A==" [248]).1.mpr (by decide)
  have hwritten {text : String} {b : Bytes}
      (h : Decode.ofText (fun _ => Decode.bytes) (Json.string text).text = .ok b) :
      IsWritten standard text.toList :=
    (hform text).mp ⟨b, (hread text b).1.mp h⟩
  refine ⟨hone, fun text h => hinjective "+A==" text [248] hone h, hwritten hone, ?_, ?_, ?_, ?_,
    ?_⟩
  · intro b h
    have hunused := ((hrefused "+B==" (hwritten h)).2.2.2 1 (by decide)).2 (by decide)
    exact absurd hunused (by decide)
  · intro b h
    exact absurd (hrefused "+A" (hwritten h)).1 (by decide)
  · intro b h
    have hextra := (hrefused "+A==" (hwritten hone)).2.2.1 2 (hwritten h)
    exact absurd hextra (by decide)
  · intro b h
    have hother := ((hrefused "-A==" (hwritten h)).2.1 '-' (by decide)).2.1
    exact absurd rfl hother
  · intro b h
    have hblank := ((hrefused "+ ==" (hwritten h)).2.1 ' ' (by decide)).1
    exact absurd hblank (by decide)

end QuorumVault
