import Mathlib.Tactic
import QuorumVault.Proofs.Json.Number

/-!
# Reading the texts of values

The text of a value is read up to its end as what `Draft.reread` says of the value
(`Document.ofText_text`): the same value, except that a number is what can be read of its text.
Nothing in it is at fault (`Draft.skip_reread`).

A text is read back character by character: `readString_escape` and `skipString_escape` take what
`Json.escape` writes of one character.
-/

namespace QuorumVault

namespace Draft

/-! ### Texts -/

/-- A hexadecimal digit is read as the number that it was written for. -/
theorem hex?_hex {n : ℕ} (h : n < 16) : Digit.hex? (Digit.hex n) = some n := by
  have hall : ∀ n < 16, Digit.hex? (Digit.hex n) = some n := by decide
  exact hall n h

theorem hexEscape_hex {n : ℕ} (rest : List Char) (h : n < 256) :
    hexEscape ('0' :: '0' :: Digit.hex (n / 16) :: Digit.hex (n % 16) :: rest) = .ok (n, rest) := by
  unfold hexEscape
  simp only [hex?_hex (show n / 16 < 16 by omega), hex?_hex (show n % 16 < 16 by omega),
    show Digit.hex? '0' = some 0 from rfl]
  congr 2
  omega

/-- A character stands for itself, or a letter stands for it behind a backslash, or its code does.
-/
theorem escape_cases (c : Char) :
    (Json.escape c = [c] ∧ c ≠ '"' ∧ c ≠ '\\' ∧ 0x20 ≤ c.toNat) ∨
      (∃ letter, Json.escape c = ['\\', letter] ∧ plainEscape? letter = some c ∧ letter ≠ 'u') ∨
        Json.escape c = ['\\', 'u', '0', '0', Digit.hex (c.toNat / 16), Digit.hex (c.toNat % 16)] ∧
          c.toNat < 0x20 := by
  have hchar {n : ℕ} (h : c.toNat = n) : c = Char.ofNat n := by rw [← h, Char.ofNat_toNat]
  unfold Json.escape
  split_ifs with hquote hslash hplain hn hr ht hb hf
  · exact .inr (.inl ⟨'"', rfl, by rw [hquote]; rfl, by decide⟩)
  · exact .inr (.inl ⟨'\\', rfl, by rw [hslash]; rfl, by decide⟩)
  · exact .inl ⟨rfl, hquote, hslash, hplain⟩
  · exact .inr (.inl ⟨'n', rfl, by rw [hn]; rfl, by decide⟩)
  · exact .inr (.inl ⟨'r', rfl, by rw [hr]; rfl, by decide⟩)
  · exact .inr (.inl ⟨'t', rfl, by rw [ht]; rfl, by decide⟩)
  · exact .inr (.inl ⟨'b', rfl, by rw [hchar hb]; rfl, by decide⟩)
  · exact .inr (.inl ⟨'f', rfl, by rw [hchar hf]; rfl, by decide⟩)
  · exact .inr (.inr ⟨rfl, Nat.not_le.mp hplain⟩)

theorem readEscape_of_plainEscape? {letter c : Char} (rest : List Char)
    (h : plainEscape? letter = some c) (hu : letter ≠ 'u') :
    readEscape (letter :: rest) = .ok (c, rest) := by
  unfold readEscape
  split <;> rename_i heq
  · cases heq
  · exact absurd (List.cons.inj heq).1 hu
  · obtain ⟨rfl, rfl⟩ := List.cons.inj heq
    rw [h]

theorem readEscape_hex {c : Char} (rest : List Char) (h : c.toNat < 0x20) :
    readEscape ('u' :: '0' :: '0' :: Digit.hex (c.toNat / 16) :: Digit.hex (c.toNat % 16) :: rest) =
      .ok (c, rest) := by
  have hlow : ¬(0xdc00 ≤ c.toNat ∧ c.toNat ≤ 0xdfff) := by omega
  have hhigh : ¬(0xd800 ≤ c.toNat ∧ c.toNat ≤ 0xdbff) := by omega
  show (hexEscape _ >>= _) = _
  rw [hexEscape_hex rest (show c.toNat < 256 by omega)]
  simp only [Bind.bind, Except.bind, hlow, hhigh, if_false, Char.ofNat_toNat]

/-- What is written for one character is read as that character. -/
theorem readString_escape (fuel : ℕ) (c : Char) (rest : List Char) :
    readString (fuel + 1) (Json.escape c ++ rest) =
      (readString fuel rest).map fun x => (c :: x.1, x.2) := by
  rcases escape_cases c with
    ⟨hc, hquote, hslash, hplain⟩ | ⟨letter, hc, hletter, hu⟩ | ⟨hc, hcontrol⟩
  · rw [hc]
    show readString (fuel + 1) (c :: rest) = _
    rw [readString, if_neg (by omega)]
    · cases readString fuel rest with
      | error fault => rfl
      | ok x => rfl
    · exact hquote
    · exact hslash
  · rw [hc]
    show (readEscape (letter :: rest) >>= _) = _
    rw [readEscape_of_plainEscape? rest hletter hu]
    show (readString fuel rest >>= _) = _
    cases readString fuel rest with
    | error fault => rfl
    | ok x => rfl
  · rw [hc]
    show (readEscape ('u' :: '0' :: '0' :: _ :: _ :: rest) >>= _) = _
    rw [readEscape_hex rest hcontrol]
    show (readString fuel rest >>= _) = _
    cases readString fuel rest with
    | error fault => rfl
    | ok x => rfl

/-- What is written for one character is passed over. -/
theorem skipString_escape (fuel : ℕ) (c : Char) (rest : List Char) :
    skipString (fuel + 1) (Json.escape c ++ rest) = skipString fuel rest := by
  rcases escape_cases c with
    ⟨hc, hquote, hslash, hplain⟩ | ⟨letter, hc, hletter, hu⟩ | ⟨hc, hcontrol⟩
  · rw [hc]
    show skipString (fuel + 1) (c :: rest) = _
    rw [skipString, if_neg (by omega)]
    · exact hquote
    · exact fun hc _ => hslash hc
    · exact fun _ hc _ => hslash hc
    · exact fun _ _ hc _ => hslash hc
  · rw [hc]
    show skipString (fuel + 1) ('\\' :: letter :: rest) = _
    rw [skipString, hletter]
    · rfl
    · exact hu
  · rw [hc]
    show (hexEscape ('0' :: '0' :: _ :: _ :: rest) >>= _) = _
    rw [hexEscape_hex rest (show c.toNat < 256 by omega)]
    rfl

theorem readString_flatMap (text : List Char) (rest : List Char) {fuel : ℕ}
    (h : text.length < fuel) :
    readString fuel (text.flatMap Json.escape ++ '"' :: rest) = .ok (text, rest) := by
  induction text generalizing fuel with
  | nil =>
    obtain ⟨fuel, rfl⟩ := Nat.exists_eq_succ_of_ne_zero (Nat.ne_zero_of_lt h)
    rfl
  | cons c text ih =>
    obtain ⟨fuel, rfl⟩ := Nat.exists_eq_succ_of_ne_zero (Nat.ne_zero_of_lt h)
    rw [List.flatMap_cons, List.append_assoc, readString_escape, ih (Nat.lt_of_succ_lt_succ h)]
    rfl

theorem skipString_flatMap (text : List Char) (rest : List Char) {fuel : ℕ}
    (h : text.length < fuel) :
    skipString fuel (text.flatMap Json.escape ++ '"' :: rest) = .ok rest := by
  induction text generalizing fuel with
  | nil =>
    obtain ⟨fuel, rfl⟩ := Nat.exists_eq_succ_of_ne_zero (Nat.ne_zero_of_lt h)
    rfl
  | cons c text ih =>
    obtain ⟨fuel, rfl⟩ := Nat.exists_eq_succ_of_ne_zero (Nat.ne_zero_of_lt h)
    rw [List.flatMap_cons, List.append_assoc, skipString_escape, ih (Nat.lt_of_succ_lt_succ h)]

/-- **Texts** are read back whatever characters are in them. -/
theorem readText_quote (text : String) (rest : List Char) {fuel : ℕ}
    (h : text.toList.length < fuel) :
    readText fuel (text.toList.flatMap Json.escape ++ '"' :: rest) =
      (.string (.ok text) none, some rest) := by
  unfold readText
  rw [readString_flatMap _ rest h, skipString_flatMap _ rest h]
  show (Draft.string (.ok (String.ofList text.toList)) none, some rest) = _
  rw [String.ofList_toList]

/-! ### What is read of a value -/

mutual

/-- What is read of the text of a value: the value, with each number as its text is read. -/
def reread : Json → Draft
  | .null => .null
  | .bool b => .bool b
  | .number n => ofNumber n
  | .string s => .string (.ok s) none
  | .array items => .array (rereadItems items) none
  | .object members => .object (rereadMembers members) none

def rereadItems : List Json → List Draft
  | [] => []
  | item :: rest => reread item :: rereadItems rest

def rereadMembers : List (String × Json) → List (Draft × Draft)
  | [] => []
  | (name, value) :: rest => (.string (.ok name) none, reread value) :: rereadMembers rest

end

mutual

/-- Nothing that is read of the text of a value is at fault. -/
theorem skip_reread : ∀ json : Json, (reread json).skip = none
  | .null => rfl
  | .bool _ => rfl
  | .number n => skip_ofNumber n
  | .string _ => rfl
  | .array items => by
    rw [reread, skip, skipItems_reread items]
    rfl
  | .object members => by
    rw [reread, skip, skipMembers_reread members]
    rfl

theorem skipItems_reread : ∀ items : List Json, skipItems (rereadItems items) = none
  | [] => rfl
  | item :: rest => by
    rw [rereadItems, skipItems, skip_reread item, skipItems_reread rest]
    rfl

theorem skipMembers_reread :
    ∀ members : List (String × Json), skipMembers (rereadMembers members) = none
  | [] => rfl
  | (name, value) :: rest => by
    rw [rereadMembers, skipMembers, skip_reread value, skipMembers_reread rest]
    rfl

end

/-! ### Values -/

theorem skipSpace_cons {c : Char} (chars : List Char) (h : isSpace c = false) :
    skipSpace (c :: chars) = c :: chars :=
  List.dropWhile_cons_of_neg (by rw [h]; exact Bool.false_ne_true)

/-- The text of a value begins with a character that is neither white space nor a bracket that
closes. -/
theorem exists_chars_eq_cons (json : Json) :
    ∃ c chars, json.chars = c :: chars ∧ isSpace c = false ∧ c ≠ ']' := by
  cases json with
  | null => exact ⟨'n', _, rfl, by decide⟩
  | bool b =>
    cases b with
    | true => exact ⟨'t', _, rfl, by decide⟩
    | false => exact ⟨'f', _, rfl, by decide⟩
  | string s => exact ⟨'"', _, rfl, by decide⟩
  | array items => exact ⟨'[', _, rfl, by decide⟩
  | object members => exact ⟨'\x7b', _, rfl, by decide⟩
  | number n =>
    obtain ⟨negative, body, hbody, hchars⟩ := n.exists_chars
    cases negative with
    | true => exact ⟨'-', body, hchars, by decide⟩
    | false =>
      obtain ⟨c, digits, rfl, hc⟩ := hbody.1
      exact ⟨c, digits, hchars, isSpace_of_isDigit hc, by rintro rfl; cases hc⟩

theorem readItems_first {c : Char} (fuel : ℕ) (chars : List Char) (hspace : isSpace c = false)
    (hclose : c ≠ ']') : readItems (fuel + 1) true (c :: chars) = readItem fuel (c :: chars) := by
  rw [readItems, skipSpace_cons chars hspace]
  simp only [if_true]

/-- The text of a value is read up to its end, wherever a number may end. -/
def ReadsValue (json : Json) : Prop :=
  ∀ (fuel : ℕ) (rest : List Char), EndsNumber rest → 3 * json.chars.length ≤ fuel →
    readValue fuel (json.chars ++ rest) = (reread json, some rest)

/-- The texts of items are read up to the bracket behind them. -/
def ReadsItems (items : List Json) : Prop :=
  items ≠ [] → ∀ (fuel : ℕ) (rest : List Char), 3 * (Json.itemsChars items).length < fuel →
    readItem fuel (Json.itemsChars items ++ ']' :: rest) = (rereadItems items, none, some rest)

/-- The texts of members are read up to the brace behind them. -/
def ReadsMembers (members : List (String × Json)) : Prop :=
  members ≠ [] → ∀ (fuel : ℕ) (rest : List Char), 3 * (Json.membersChars members).length < fuel →
    readMember fuel (Json.membersChars members ++ '\x7d' :: rest) =
      (rereadMembers members, none, some rest)

theorem length_le_length_flatMap_escape (text : List Char) :
    text.length ≤ (text.flatMap Json.escape).length := by
  induction text with
  | nil => exact Nat.le_refl _
  | cons c text ih =>
    have hc : 1 ≤ (Json.escape c).length := by
      rcases escape_cases c with ⟨hc, -⟩ | ⟨letter, hc, -⟩ | ⟨hc, -⟩
      · rw [hc]
        exact Nat.le_refl 1
      · rw [hc]
        exact Nat.le_succ 1
      · rw [hc]
        simp
    rw [List.flatMap_cons, List.length_append, List.length_cons]
    omega

theorem readValue_quote (text : String) (rest : List Char) {fuel : ℕ}
    (h : (Json.quote text).length ≤ fuel) :
    readValue fuel (Json.quote text ++ rest) = (.string (.ok text) none, some rest) := by
  have hescaped := length_le_length_flatMap_escape text.toList
  have hlength : (Json.quote text).length = (text.toList.flatMap Json.escape).length + 2 := by
    simp [Json.quote]
  have hquote : Json.quote text ++ rest =
      '"' :: (text.toList.flatMap Json.escape ++ '"' :: rest) := by
    simp [Json.quote]
  obtain ⟨fuel, rfl⟩ := Nat.exists_eq_succ_of_ne_zero (show fuel ≠ 0 by omega)
  rw [hquote]
  exact readText_quote text rest (by omega)

theorem readsValue_number (n : Json.Number) : ReadsValue (.number n) := by
  intro fuel rest hrest h
  obtain ⟨c, chars, hchars, -⟩ := exists_chars_eq_cons (.number n)
  rw [hchars, List.length_cons] at h
  obtain ⟨fuel, rfl⟩ := Nat.exists_eq_succ_of_ne_zero (show fuel ≠ 0 by omega)
  exact readValue_number n fuel hrest

theorem readsValue_string (text : String) : ReadsValue (.string text) := by
  intro fuel rest _ h
  have hle : (Json.quote text).length ≤ fuel :=
    Nat.le_trans (Nat.le_mul_of_pos_left _ (by decide)) h
  exact readValue_quote text rest hle

theorem readsValue_null : ReadsValue .null := by
  intro fuel rest _ h
  obtain ⟨fuel, rfl⟩ := Nat.exists_eq_add_of_le' h
  rfl

theorem readsValue_bool (b : Bool) : ReadsValue (.bool b) := by
  intro fuel rest _ h
  cases b with
  | true =>
    obtain ⟨fuel, rfl⟩ := Nat.exists_eq_add_of_le' h
    rfl
  | false =>
    obtain ⟨fuel, rfl⟩ := Nat.exists_eq_add_of_le' h
    rfl

theorem one_le_length_chars (json : Json) : 1 ≤ json.chars.length := by
  obtain ⟨c, chars, hchars, -⟩ := exists_chars_eq_cons json
  rw [hchars]
  exact Nat.succ_pos _

/-- What follows an item. -/
theorem readItem_value {value : Json} {chars rest : List Char} {fuel : ℕ}
    (hvalue : readValue fuel chars = (reread value, some rest)) :
    readItem (fuel + 1) chars =
      let (items, close, rest) := readItems fuel false rest
      (reread value :: items, close, rest) := by
  rw [readItem, hvalue]

/-- A value is read, and then the items behind it. -/
theorem readsItems_cons {item : Json} {items : List Json} (hitem : ReadsValue item)
    (hitems : ReadsItems items) : ReadsItems (item :: items) := by
  intro _ fuel rest h
  have hpos := one_le_length_chars item
  cases items with
  | nil =>
    have hchars : Json.itemsChars [item] = item.chars := rfl
    rw [hchars] at h
    obtain ⟨fuel, rfl⟩ := Nat.exists_eq_add_of_le' (show 2 ≤ fuel by omega)
    -- the bracket ends the item, even if that is a number
    rw [hchars, readItem_value (hitem _ _ (endsNumber_cons _ (by decide)) (by omega))]
    rfl
  | cons next items =>
    have hchars : Json.itemsChars (item :: next :: items) =
        item.chars ++ ',' :: Json.itemsChars (next :: items) := rfl
    rw [hchars, List.length_append, List.length_cons] at h
    obtain ⟨fuel, rfl⟩ := Nat.exists_eq_add_of_le' (show 2 ≤ fuel by omega)
    -- and so does the comma
    rw [hchars, List.append_assoc, List.cons_append,
      readItem_value (hitem _ _ (endsNumber_cons _ (by decide)) (by omega))]
    have hrest := hitems (List.cons_ne_nil next items) fuel rest (by omega)
    show (let (items, close, rest) := readItem fuel (Json.itemsChars (next :: items) ++ ']' :: rest)
      (reread item :: items, close, rest)) = _
    rw [hrest]
    rfl

/-- What follows the name of a member. -/
theorem readMember_quote (name : String) (value : Json) (chars rest : List Char) {fuel : ℕ}
    (hname : (Json.quote name).length ≤ fuel)
    (hvalue : readValue fuel chars = (reread value, some rest)) :
    readMember (fuel + 1) (Json.quote name ++ ':' :: chars) =
      let (members, close, rest) := readMembers fuel false rest
      ((Draft.string (.ok name) none, reread value) :: members, close, rest) := by
  have hcolon : skipSpace (':' :: chars) = ':' :: chars := skipSpace_cons chars (by decide)
  rw [readMember, readValue_quote name _ hname]
  simp only [hcolon, hvalue]

/-- A name and a value are read, and then the members behind them. -/
theorem readsMembers_cons {name : String} {value : Json} {members : List (String × Json)}
    (hvalue : ReadsValue value) (hmembers : ReadsMembers members) :
    ReadsMembers ((name, value) :: members) := by
  intro _ fuel rest h
  have hpos := one_le_length_chars value
  cases members with
  | nil =>
    have hchars : Json.membersChars [(name, value)] = Json.quote name ++ ':' :: value.chars := rfl
    rw [hchars, List.length_append, List.length_cons] at h
    obtain ⟨fuel, rfl⟩ := Nat.exists_eq_add_of_le' (show 2 ≤ fuel by omega)
    rw [hchars, List.append_assoc, List.cons_append,
      readMember_quote name value _ _ (by omega)
        (hvalue _ _ (endsNumber_cons _ (by decide)) (by omega))]
    rfl
  | cons next members =>
    have hchars : Json.membersChars ((name, value) :: next :: members) =
        Json.quote name ++ ':' :: value.chars ++ ',' :: Json.membersChars (next :: members) := rfl
    rw [hchars, List.length_append, List.length_append, List.length_cons, List.length_cons] at h
    obtain ⟨fuel, rfl⟩ := Nat.exists_eq_add_of_le' (show 2 ≤ fuel by omega)
    rw [hchars, List.append_assoc, List.append_assoc, List.cons_append, List.cons_append,
      readMember_quote name value _ _ (by omega)
        (hvalue _ _ (endsNumber_cons _ (by decide)) (by omega))]
    have hrest := hmembers (List.cons_ne_nil next members) fuel rest (by omega)
    show (let (members, close, rest) :=
        readMember fuel (Json.membersChars (next :: members) ++ '\x7d' :: rest)
      ((Draft.string (.ok name) none, reread value) :: members, close, rest)) = _
    rw [hrest]
    rfl

theorem readsValue_array {items : List Json} (hitems : ReadsItems items) :
    ReadsValue (.array items) := by
  intro fuel rest _ h
  have hlength : (Json.array items).chars.length = (Json.itemsChars items).length + 2 := by
    simp [Json.chars]
  have hchars : (Json.array items).chars ++ rest =
      '[' :: (Json.itemsChars items ++ ']' :: rest) := by
    simp [Json.chars]
  rw [hlength] at h
  obtain ⟨fuel, rfl⟩ := Nat.exists_eq_add_of_le' (show 2 ≤ fuel by omega)
  rw [hchars]
  show (let (items, close, rest) := readItems (fuel + 1) true (Json.itemsChars items ++ ']' :: rest)
    (Draft.array items close, rest)) = _
  cases items with
  | nil => rfl
  | cons item items =>
    -- what comes first must not be taken for the closing bracket
    have hread := hitems (List.cons_ne_nil item items) fuel rest (by omega)
    obtain ⟨c, chars, hhead, hspace, hclose⟩ := exists_chars_eq_cons item
    obtain ⟨cs, hcs⟩ : ∃ cs, Json.itemsChars (item :: items) = c :: cs := by
      cases items with
      | nil => exact ⟨chars, hhead⟩
      | cons next items =>
        refine ⟨chars ++ ',' :: Json.itemsChars (next :: items), ?_⟩
        show item.chars ++ ',' :: Json.itemsChars (next :: items) = _
        rw [hhead]
        rfl
    rw [hcs] at hread ⊢
    rw [List.cons_append, readItems_first fuel _ hspace hclose, ← List.cons_append, hread]
    rfl

theorem readsValue_object {members : List (String × Json)} (hmembers : ReadsMembers members) :
    ReadsValue (.object members) := by
  intro fuel rest _ h
  have hlength : (Json.object members).chars.length = (Json.membersChars members).length + 2 := by
    simp [Json.chars]
  have hchars : (Json.object members).chars ++ rest =
      '\x7b' :: (Json.membersChars members ++ '\x7d' :: rest) := by
    simp [Json.chars]
  rw [hlength] at h
  obtain ⟨fuel, rfl⟩ := Nat.exists_eq_add_of_le' (show 2 ≤ fuel by omega)
  rw [hchars]
  show (let (members, close, rest) :=
      readMembers (fuel + 1) true (Json.membersChars members ++ '\x7d' :: rest)
    (Draft.object members close, rest)) = _
  cases members with
  | nil => rfl
  | cons member members =>
    have hread := hmembers (List.cons_ne_nil member members) fuel rest (by omega)
    obtain ⟨name, value⟩ := member
    obtain ⟨cs, hcs⟩ : ∃ cs, Json.membersChars ((name, value) :: members) = '"' :: cs := by
      cases members with
      | nil => exact ⟨_, rfl⟩
      | cons next members => exact ⟨_, rfl⟩
    rw [hcs] at hread ⊢
    have hfirst : readMembers (fuel + 1) true ('"' :: (cs ++ '\x7d' :: rest)) =
        readMember fuel ('"' :: (cs ++ '\x7d' :: rest)) := rfl
    rw [List.cons_append, hfirst, ← List.cons_append, hread]
    rfl

mutual

theorem readsValue : ∀ json : Json, ReadsValue json
  | .null => readsValue_null
  | .bool b => readsValue_bool b
  | .number n => readsValue_number n
  | .string text => readsValue_string text
  | .array items => readsValue_array (readsItems items)
  | .object members => readsValue_object (readsMembers members)

theorem readsItems : ∀ items : List Json, ReadsItems items
  | [] => fun h => absurd rfl h
  | item :: items => readsItems_cons (readsValue item) (readsItems items)

theorem readsMembers : ∀ members : List (String × Json), ReadsMembers members
  | [] => fun h => absurd rfl h
  | (_, value) :: members => readsMembers_cons (readsValue value) (readsMembers members)

end

end Draft

/-- **Whole texts**: the text of a value is read without a fault. -/
theorem Document.ofText_text (json : Json) : ofText json.text = ⟨Draft.reread json, none⟩ := by
  have h := Draft.readsValue json (3 * json.chars.length + 3) [] Draft.endsNumber_nil (by omega)
  rw [List.append_nil] at h
  unfold ofText
  simp only [Json.text, String.toList_ofList, h]
  rfl

end QuorumVault
