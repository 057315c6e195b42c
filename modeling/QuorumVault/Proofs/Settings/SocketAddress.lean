import Mathlib.Data.List.TakeWhile
import Mathlib.Tactic
import QuorumVault.Proofs.Text.Numeral
import QuorumVault.Settings.SocketAddress

/-!
# Reading the texts of socket addresses

A socket address is read of its texts and of no others (`ofChars?_eq_some_iff`), and what is written
for it is one of its texts (`isText_chars`).

An IPv6 address has many texts: the digits of a group may be of either case and may have zeros in
front of them, one run of zero groups may be left out, and the last two groups may be given as an
IPv4 address.  Groups are read one after the other for as long as there is a colon and then another
group, so that the reading of a run of groups ends at two colons, at a scope, or at a bracket
(`Stops`).  No group is taken for an IPv4 address, since the first character that is no decimal
digit would have to be a point (`ipv4?_of_isHex`).
-/

namespace QuorumVault.SocketAddress

variable {digits chars rest : List Char}

/-! ### Texts -/

/-- Digits of a decimal number, which may have zeros in front. -/
def IsDecimal (digits : List Char) (n : ℕ) : Prop :=
  Draft.AreDigits digits ∧ Nat.ofDigitChars 10 digits 0 = n

/-- Hexadecimal digits of either case. -/
def AreHex (digits : List Char) : Prop :=
  digits ≠ [] ∧ ∀ c ∈ digits, (Digit.hex? c).isSome = true

/-- The number that hexadecimal digits make up. -/
def hexValue (digits : List Char) : ℕ :=
  (digits.filterMap Digit.hex?).foldl (fun n d => 16 * n + d) 0

/-- The digits of a group, which may have zeros in front as long as there are at most four. -/
structure IsGroup (digits : List Char) (g : UInt16) : Prop where
  areHex : AreHex digits
  length_le : digits.length ≤ 4
  hexValue_eq : hexValue digits = g.toNat

/-- Groups with colons between them; the last two may be given as an IPv4 address, and the flag
tells whether they are. -/
inductive AreGroups : Bool → List Char → List UInt16 → Prop where
  | nil : AreGroups false [] []
  | last {digits : List Char} {g : UInt16} (h : IsGroup digits g) : AreGroups false digits [g]
  | embedded (host : Ipv4) : AreGroups true host.chars (pair host)
  | cons {embedded : Bool} {digits chars : List Char} {g : UInt16} {groups : List UInt16}
      (h : IsGroup digits g) (hgroups : groups ≠ []) (hrest : AreGroups embedded chars groups) :
      AreGroups embedded (digits ++ ':' :: chars) (g :: groups)

/-- The texts of an IPv6 address: all groups, or all but some zero groups at one place. -/
inductive IsIpv6 (host : Ipv6) : List Char → Prop where
  | full {embedded : Bool} {chars : List Char} (h : AreGroups embedded chars host.groups) :
      IsIpv6 host chars
  | compressed {embedded : Bool} {front back : List Char} {before after : List UInt16} {zeros : ℕ}
      (hfront : AreGroups false front before) (hback : AreGroups embedded back after)
      (hzeros : zeros ≠ 0)
      (h : host.groups = before ++ List.replicate zeros 0 ++ after) :
      IsIpv6 host (front ++ ':' :: ':' :: back)

/-- The texts of a scope; scope zero may be left out. -/
inductive IsScope : UInt32 → List Char → Prop where
  | none : IsScope 0 []
  | some {scope : UInt32} {digits : List Char} (h : IsDecimal digits scope.toNat) :
      IsScope scope ('%' :: digits)

/-- The texts of a socket address. -/
inductive IsText : SocketAddress → List Char → Prop where
  | v4 {host : Ipv4} {port : UInt16} {digits : List Char} (hport : IsDecimal digits port.toNat) :
      IsText (.v4 host port) (host.chars ++ ':' :: digits)
  | v6 {host : Ipv6} {scope : UInt32} {port : UInt16} {hostChars scopeChars digits : List Char}
      (hhost : IsIpv6 host hostChars) (hscope : IsScope scope scopeChars)
      (hport : IsDecimal digits port.toNat) :
      IsText (.v6 host scope port) ('[' :: hostChars ++ scopeChars ++ ']' :: ':' :: digits)

/-! ### What follows -/

/-- What does not go on with a group, nor makes an IPv4 address of its digits. -/
def EndsGroup (rest : List Char) : Prop := ∀ c ∈ rest.head?, Digit.hex? c = none ∧ c ≠ '.'

/-- What does not go on with groups. -/
def Stops (rest : List Char) : Prop :=
  EndsGroup rest ∧ ∀ more, rest = ':' :: more → EndsGroup more

theorem endsGroup_cons {c : Char} (h : Digit.hex? c = none ∧ c ≠ '.') (rest : List Char) :
    EndsGroup (c :: rest) := by
  intro d hd
  obtain rfl : c = d := Option.some.inj hd
  exact h

theorem stops_of_ne {c : Char} (h : Digit.hex? c = none ∧ c ≠ '.') (hne : c ≠ ':')
    (rest : List Char) : Stops (c :: rest) :=
  ⟨endsGroup_cons h rest, fun _ heq => absurd (List.cons.inj heq).1 hne⟩

theorem stops_colons (rest : List Char) : Stops (':' :: ':' :: rest) := by
  have hcolon : Digit.hex? ':' = none ∧ ':' ≠ '.' := by decide
  refine ⟨endsGroup_cons hcolon _, fun more heq => ?_⟩
  obtain rfl : ':' :: rest = more := (List.cons.inj heq).2
  exact endsGroup_cons hcolon rest

/-! ### Numbers -/

theorem number?_append {radix : ℕ} {value? : Char → Option ℕ} (hne : digits ≠ [])
    (hdigits : ∀ c ∈ digits, (value? c).isSome = true) (hrest : ∀ c ∈ rest.head?, value? c = none) :
    number? radix value? (digits ++ rest) =
      some ((digits.filterMap value?).foldl (fun n d => radix * n + d) 0, rest) := by
  have hnone : ∀ c ∈ rest.head?, (value? c).isSome = false := by
    intro c hc
    rw [hrest c hc]
    rfl
  obtain ⟨htake, hdrop⟩ := Digit.takeWhile_append hdigits hnone
  unfold number?
  rw [htake, hdrop]
  cases digits with
  | nil => exact absurd rfl hne
  | cons c digits => rfl

theorem number?_of_head? {radix : ℕ} {value? : Char → Option ℕ}
    (hrest : ∀ c ∈ rest.head?, value? c = none) : number? radix value? rest = none := by
  have hnone : ∀ c ∈ rest.head?, (value? c).isSome = false := by
    intro c hc
    rw [hrest c hc]
    rfl
  rw [number?, (Digit.takeWhile_of_head? hnone).1]

/-- A number ends where its digits do. -/
theorem eq_dropWhile_of_number? {radix n : ℕ} {value? : Char → Option ℕ}
    (h : number? radix value? chars = some (n, rest)) :
    rest = chars.dropWhile fun c => (value? c).isSome := by
  unfold number? at h
  split at h
  · cases h
  · exact (Prod.mk.inj (Option.some.inj h)).2.symm

theorem bounded?_append {max n : ℕ} (h : IsDecimal digits n) (hn : n ≤ max)
    (hrest : ∀ c ∈ rest.head?, Digit.decimal? c = none) :
    bounded? max (digits ++ rest) = some (n, rest) := by
  obtain ⟨⟨hne, hall⟩, hvalue⟩ := h
  have hsome : ∀ c ∈ digits, (Digit.decimal? c).isSome = true := by
    intro c hc
    rw [Digit.decimal?_of_isDigit (hall c hc)]
    rfl
  have hfold : (digits.filterMap Digit.decimal?).foldl (fun n d => 10 * n + d) 0 = n := by
    rw [Digit.filterMap_decimal? hall]
    exact (Draft.ofDigits_values digits).trans hvalue
  unfold bounded?
  rw [number?_append hne hsome hrest]
  simp only [hfold, if_pos hn]

theorem isDecimal_write (n : ℕ) : IsDecimal (Numeral.write n) n :=
  ⟨Draft.areDigits_toDigits n, Nat.ofDigitChars_ten_toDigits⟩

/-! ### IPv4 addresses -/

theorem byte?_write (b : UInt8) (hrest : ∀ c ∈ rest.head?, Digit.decimal? c = none) :
    byte? (Numeral.write b.toNat ++ rest) = some (b, rest) := by
  have hbound : b.toNat ≤ 255 := Nat.le_of_lt_succ b.toNat_lt
  have hlength : (Numeral.write b.toNat).length ≤ 3 :=
    (Nat.length_toDigits_le_iff (by decide) (by decide)).mpr (by omega)
  have hzero (h : (Numeral.write b.toNat ++ rest).head? = some '0') :
      ¬1 < (Numeral.write b.toNat).length := by
    rw [List.head?_append_of_ne_nil _ (isDecimal_write _).1.1] at h
    rw [show Numeral.write b.toNat = ['0'] from Digit.toDigits_of_head? h]
    decide
  unfold byte?
  rw [bounded?_append (isDecimal_write _) hbound hrest]
  simp only [List.length_append, Nat.add_sub_cancel]
  rw [if_neg, UInt8.ofNat_toNat]
  rintro (h | ⟨h, hlong⟩)
  · omega
  · exact hzero h hlong

theorem byte?_of_head? (hrest : ∀ c ∈ rest.head?, Digit.decimal? c = none) :
    byte? rest = none := by
  rw [byte?, bounded?, number?_of_head? hrest]

theorem number?_of_bounded? {max n : ℕ} (h : bounded? max chars = some (n, rest)) :
    number? 10 Digit.decimal? chars = some (n, rest) := by
  unfold bounded? at h
  cases hnumber : number? 10 Digit.decimal? chars with
  | none => simp [hnumber] at h
  | some read =>
    simp only [hnumber] at h
    split_ifs at h
    exact h

/-- A byte ends where the decimal digits do. -/
theorem eq_dropWhile_of_byte? {b : UInt8} (h : byte? chars = some (b, rest)) :
    rest = chars.dropWhile fun c => (Digit.decimal? c).isSome := by
  unfold byte? at h
  cases hbounded : bounded? 255 chars with
  | none => simp [hbounded] at h
  | some read =>
    simp only [hbounded] at h
    split_ifs at h
    obtain ⟨-, rfl⟩ := Prod.mk.inj (Option.some.inj h)
    exact eq_dropWhile_of_number? (number?_of_bounded? hbounded)

theorem ipv4?_chars (host : Ipv4) (hrest : ∀ c ∈ rest.head?, Digit.decimal? c = none) :
    ipv4? (host.chars ++ rest) = some (host, rest) := by
  have hpoint (chars : List Char) : ∀ c ∈ ('.' :: chars).head?, Digit.decimal? c = none := by
    intro c hc
    obtain rfl : '.' = c := Option.some.inj hc
    rfl
  have hafter (chars : List Char) : after? '.' ('.' :: chars) = some chars := rfl
  unfold ipv4? Ipv4.chars
  simp only [List.append_assoc, List.cons_append, byte?_write _ (hpoint _), byte?_write _ hrest,
    hafter, Option.bind_eq_bind, Option.bind_some, Option.pure_def]

theorem ipv4?_of_head? (hrest : ∀ c ∈ rest.head?, Digit.decimal? c = none) :
    ipv4? rest = none := by
  rw [ipv4?, byte?_of_head? hrest]
  rfl

/-! ### Groups -/

theorem decimal?_of_hex? {c : Char} (h : Digit.hex? c = none) : Digit.decimal? c = none := by
  unfold Digit.hex? Digit.lowerHex? at h
  split_ifs at h
  exact h

theorem EndsGroup.decimal? (h : EndsGroup rest) : ∀ c ∈ rest.head?, Digit.decimal? c = none :=
  fun c hc => decimal?_of_hex? (h c hc).1

/-- The first character after decimal digits is no point, if there are only digits of a group. -/
theorem ne_point_of_dropWhile (hdigits : ∀ c ∈ digits, (Digit.hex? c).isSome = true)
    (hrest : EndsGroup rest) :
    ∀ c ∈ ((digits ++ rest).dropWhile fun c => (Digit.decimal? c).isSome).head?, c ≠ '.' := by
  induction digits with
  | nil =>
    have hnone : ∀ c ∈ rest.head?, (Digit.decimal? c).isSome = false := by
      intro c hc
      rw [hrest.decimal? c hc]
      rfl
    rw [List.nil_append, (Digit.takeWhile_of_head? hnone).2]
    exact fun c hc => (hrest c hc).2
  | cons d digits ih =>
    obtain ⟨hd, hdigits⟩ := List.forall_mem_cons.mp hdigits
    rw [List.cons_append, List.dropWhile_cons]
    split_ifs
    · exact ih hdigits
    · intro c hc
      obtain rfl : d = c := Option.some.inj hc
      rintro rfl
      cases hd

theorem after?_of_head? {c : Char} (h : ∀ d ∈ chars.head?, d ≠ c) : after? c chars = none := by
  cases chars with
  | nil => rfl
  | cons d chars => exact if_neg (h d rfl)

/-- No group is taken for an IPv4 address. -/
theorem ipv4?_of_isHex (hdigits : ∀ c ∈ digits, (Digit.hex? c).isSome = true)
    (hrest : EndsGroup rest) : ipv4? (digits ++ rest) = none := by
  have hpoint := ne_point_of_dropWhile hdigits hrest
  unfold ipv4?
  cases hbyte : byte? (digits ++ rest) with
  | none => rfl
  | some read =>
    obtain ⟨b, after⟩ := read
    rw [← eq_dropWhile_of_byte? hbyte] at hpoint
    simp [after?_of_head? hpoint]

theorem group?_append {g : UInt16} (h : IsGroup digits g) (hrest : EndsGroup rest) :
    group? (digits ++ rest) = some (g, rest) := by
  have hvalue : (digits.filterMap Digit.hex?).foldl (fun n d => 16 * n + d) 0 = g.toNat :=
    h.hexValue_eq
  have hlength : ¬4 < digits.length := Nat.not_lt.mpr h.length_le
  unfold group?
  rw [number?_append h.areHex.1 h.areHex.2 fun c hc => (hrest c hc).1]
  simp only [hvalue, List.length_append, Nat.add_sub_cancel, if_neg hlength, UInt16.ofNat_toNat]

theorem group?_of_endsGroup (hrest : EndsGroup rest) : group? rest = none := by
  rw [group?, number?_of_head? fun c hc => (hrest c hc).1]

/-- Nothing is read where no group begins. -/
theorem groups_of_endsGroup (limit : ℕ) {first : Bool} (hrest : EndsGroup chars)
    (hchars : separated? first rest = some chars) :
    groups limit first rest = ([], false, rest) := by
  cases limit with
  | zero => rfl
  | succ limit =>
    unfold groups
    simp only [hchars, ipv4?_of_head? hrest.decimal?, group?_of_endsGroup hrest, ite_self]

theorem groups_of_stops (limit : ℕ) (hrest : Stops rest) :
    groups limit false rest = ([], false, rest) := by
  cases hcolon : separated? false rest with
  | some more =>
    have heq : rest = ':' :: more := by
      cases rest with
      | nil => cases hcolon
      | cons c rest =>
        unfold separated? after? at hcolon
        simp only [Bool.false_eq_true, if_false] at hcolon
        split_ifs at hcolon with hc
        rw [hc, Option.some.inj hcolon]
    exact groups_of_endsGroup limit (hrest.2 more heq) hcolon
  | none =>
    cases limit with
    | zero => rfl
    | succ limit =>
      unfold groups
      simp only [hcolon]

/-- The text of groups behind the colon that separates them from what is before them. -/
def behind (first : Bool) (chars : List Char) : List Char :=
  if first then chars else ':' :: chars

theorem separated?_behind (first : Bool) (chars : List Char) :
    separated? first (behind first chars) = some chars := by
  cases first <;> rfl

theorem groups_append {embedded first : Bool} {limit : ℕ} {gs : List UInt16}
    (h : AreGroups embedded chars gs) (hne : gs ≠ []) (hlimit : gs.length ≤ limit)
    (hrest : Stops rest) :
    groups limit first (behind first (chars ++ rest)) = (gs, embedded, rest) := by
  induction h generalizing limit first with
  | nil => exact absurd rfl hne
  | @last digits g hgroup =>
    obtain ⟨limit, rfl⟩ := Nat.exists_eq_add_one.mpr hlimit
    unfold groups
    simp only [separated?_behind, ipv4?_of_isHex hgroup.areHex.2 hrest.1, ite_self,
      group?_append hgroup hrest.1, groups_of_stops limit hrest]
  | embedded host =>
    obtain ⟨limit, rfl⟩ := Nat.exists_eq_add_one.mpr (Nat.lt_of_succ_lt hlimit)
    have hpositive : 0 < limit := Nat.lt_of_succ_lt_succ hlimit
    unfold groups
    simp only [separated?_behind, if_pos hpositive, ipv4?_chars host hrest.1.decimal?]
  | @cons embedded digits chars g gs hgroup hgs hchars ih =>
    obtain ⟨limit, rfl⟩ := Nat.exists_eq_add_one.mpr (Nat.zero_lt_of_lt hlimit)
    have hcolon : EndsGroup (':' :: (chars ++ rest)) := endsGroup_cons (by decide) _
    have hmore : groups limit false (':' :: (chars ++ rest)) = (gs, embedded, rest) :=
      ih hgs (Nat.le_of_succ_le_succ hlimit)
    unfold groups
    simp only [separated?_behind, List.append_assoc, List.cons_append,
      ipv4?_of_isHex hgroup.areHex.2 hcolon, ite_self, group?_append hgroup hcolon, hmore]

theorem groups_first {embedded : Bool} {limit : ℕ} {gs : List UInt16}
    (h : AreGroups embedded chars gs) (hlimit : gs.length ≤ limit) (hrest : Stops rest) :
    groups limit true (chars ++ rest) = (gs, embedded, rest) := by
  by_cases hne : gs = []
  · subst hne
    cases h
    exact groups_of_endsGroup limit hrest.1 rfl
  · exact groups_append h hne hlimit hrest

/-! ### IPv6 addresses -/

theorem ofGroups?_groups (host : Ipv6) : ofGroups? host.groups = some host :=
  dif_pos host.length_groups

theorem ipv6?_append {host : Ipv6} (h : IsIpv6 host chars) (hrest : Stops rest) :
    ipv6? (chars ++ rest) = some (host, rest) := by
  cases h with
  | full h =>
    unfold ipv6?
    simp only [groups_first h host.length_groups.le hrest, ofGroups?_groups, Option.pure_def]
  | @compressed embedded front back before after zeros hfront hback hzeros h =>
    have hsum : before.length + zeros + after.length = 8 := by
      rw [← host.length_groups, h, List.length_append, List.length_append, List.length_replicate]
    have hbefore : before.length ≤ 8 := by omega
    have hafter : after.length ≤ 7 - before.length := by omega
    have hmissing : 8 - before.length - after.length = zeros := by omega
    have hshort : ofGroups? before = none := dif_neg (by omega)
    have hfirst := groups_first hfront hbefore (stops_colons (back ++ rest))
    have hsecond := groups_first hback hafter hrest
    unfold ipv6?
    simp only [List.append_assoc, List.cons_append, hfirst, hshort, Bool.false_eq_true, if_false,
      after?, if_true, Option.bind_eq_bind, Option.bind_some, hsecond, hmissing, Option.pure_def]
    rw [← List.append_assoc, ← h, ofGroups?_groups]
    rfl

/-! ### Socket addresses -/

theorem scope?_append {scope : UInt32} (h : IsScope scope chars) (rest : List Char) :
    scope? (chars ++ ']' :: rest) = (scope, ']' :: rest) := by
  have hbracket : ∀ c ∈ (']' :: rest).head?, Digit.decimal? c = none := by
    intro c hc
    obtain rfl : ']' = c := Option.some.inj hc
    rfl
  cases h with
  | none => rfl
  | @some scope digits h =>
    have hscope : scope.toNat ≤ 0xffffffff := Nat.le_of_lt_succ scope.toNat_lt
    unfold scope?
    simp only [List.cons_append, after?, if_true, bounded?_append h hscope hbracket,
      UInt32.ofNat_toNat]

theorem port?_of_isDecimal {port : UInt16} (h : IsDecimal digits port.toNat) :
    port? (':' :: digits) = some port := by
  have hport : port.toNat ≤ 0xffff := Nat.le_of_lt_succ port.toNat_lt
  have hread := bounded?_append h hport (show ∀ c ∈ [].head?, Digit.decimal? c = none from nofun)
  rw [List.append_nil] at hread
  unfold port?
  simp only [after?, if_true, Option.bind_eq_bind, Option.bind_some, hread, List.isEmpty_nil,
    UInt16.ofNat_toNat]

theorem stops_scope {scope : UInt32} (h : IsScope scope chars) (rest : List Char) :
    Stops (chars ++ ']' :: rest) := by
  cases h with
  | none => exact stops_of_ne (by decide) (by decide) rest
  | some => exact stops_of_ne (by decide) (by decide) _

/-- Every text of an address is read as that address. -/
theorem ofChars?_of_isText {address : SocketAddress} (h : IsText address chars) :
    ofChars? chars = some address := by
  cases h with
  | @v4 host port digits hport =>
    have hcolon : ∀ c ∈ (':' :: digits).head?, Digit.decimal? c = none := by
      intro c hc
      obtain rfl : ':' = c := Option.some.inj hc
      rfl
    unfold ofChars?
    simp only [ipv4?_chars host hcolon, port?_of_isDecimal hport, Option.map_some]
  | @v6 host scope port hostChars scopeChars digits hhost hscope hport =>
    have hbracket : ∀ c ∈ ('[' :: (hostChars ++ (scopeChars ++ ']' :: ':' :: digits))).head?,
        Digit.decimal? c = none := by
      intro c hc
      obtain rfl : '[' = c := Option.some.inj hc
      rfl
    unfold ofChars?
    simp only [List.append_assoc, List.cons_append, ipv4?_of_head? hbracket, after?, if_true,
      Option.bind_eq_bind, Option.bind_some, ipv6?_append hhost (stops_scope hscope _),
      scope?_append hscope, port?_of_isDecimal hport, Option.pure_def]

/-! ### What is written -/

theorem hex?_digitChar {d : ℕ} (h : d < 16) : Digit.hex? (Nat.digitChar d) = some d := by
  have hall : ∀ d < 16, Digit.hex? (Nat.digitChar d) = some d := by decide
  exact hall d h

theorem hexValue_append_singleton {c : Char} {d : ℕ} (hc : Digit.hex? c = some d) :
    hexValue (digits ++ [c]) = 16 * hexValue digits + d := by
  simp [hexValue, hc]

theorem hexValue_toDigits (n : ℕ) : hexValue (Nat.toDigits 16 n) = n ∧
    ∀ c ∈ Nat.toDigits 16 n, (Digit.hex? c).isSome = true := by
  induction n using Nat.strongRecOn with
  | ind n ih =>
    have hlast := hex?_digitChar (Nat.mod_lt n (show 16 > 0 by decide))
    by_cases hlt : n < 16
    · rw [Nat.mod_eq_of_lt hlt] at hlast
      rw [Nat.toDigits_of_lt_base hlt]
      simp [hexValue, hlast]
    · have hle : 16 ≤ n := Nat.not_lt.mp hlt
      obtain ⟨hvalue, hhex⟩ := ih (n / 16) (by omega)
      rw [Nat.toDigits_of_base_le (by decide) hle]
      refine ⟨?_, ?_⟩
      · rw [hexValue_append_singleton hlast, hvalue]
        omega
      · intro c hc
        rcases List.mem_append.mp hc with hc | hc
        · exact hhex c hc
        · rw [List.mem_singleton.mp hc, hlast]
          rfl

theorem isGroup_toDigits (g : UInt16) : IsGroup (Nat.toDigits 16 g.toNat) g where
  areHex := ⟨Nat.toDigits_ne_nil, (hexValue_toDigits g.toNat).2⟩
  length_le := (Nat.length_toDigits_le_iff (by decide) (by decide)).mpr g.toNat_lt
  hexValue_eq := (hexValue_toDigits g.toNat).1

theorem areGroups_groupsChars (gs : List UInt16) : AreGroups false (Ipv6.groupsChars gs) gs := by
  induction gs with
  | nil => exact .nil
  | cons g gs ih =>
    cases gs with
    | nil => exact .last (isGroup_toDigits g)
    | cons g' gs => exact .cons (isGroup_toDigits g) (List.cons_ne_nil _ _) ih

theorem pair_of_groups (high low : UInt16) :
    pair ⟨UInt8.ofNat (high.toNat / 256), UInt8.ofNat high.toNat, UInt8.ofNat (low.toNat / 256),
      UInt8.ofNat low.toNat⟩ = [high, low] := by
  have hgroup (g : UInt16) : UInt16.ofNat
      ((UInt8.ofNat (g.toNat / 256)).toNat * 256 + (UInt8.ofNat g.toNat).toNat) = g := by
    have hg := g.toNat_lt
    rw [UInt8.toNat_ofNat', UInt8.toNat_ofNat', Nat.mod_eq_of_lt (by omega), Nat.div_add_mod',
      UInt16.ofNat_toNat]
  simp only [pair, hgroup]

theorem groups_of_mapped? {host : Ipv6} {v4 : Ipv4} (h : host.mapped? = some v4) :
    host.groups = List.replicate 5 0 ++ 0xffff :: pair v4 := by
  unfold Ipv6.mapped? at h
  split at h
  · rename_i high low hgroups
    obtain rfl := Option.some.inj h
    rw [hgroups, pair_of_groups]
    rfl
  · cases h

/-- There are as many zero groups from the place on as the length says. -/
theorem longestZeros_le (gs : List UInt16) :
    (Ipv6.longestZeros gs).2 ≤ Ipv6.zeros (gs.drop (Ipv6.longestZeros gs).1) := by
  unfold Ipv6.longestZeros
  -- each place is compared with the best one before it
  refine List.foldlRecOn (motive := fun best : ℕ × ℕ => best.2 ≤ Ipv6.zeros (gs.drop best.1)) _ _
    (Nat.zero_le _) fun best hbest i _ => ?_
  dsimp only
  split_ifs
  · exact Nat.le_refl _
  · exact hbest

theorem take_of_le_zeros {gs : List UInt16} {n : ℕ} (h : n ≤ Ipv6.zeros gs) :
    gs.take n = List.replicate n 0 := by
  induction gs generalizing n with
  | nil =>
    obtain rfl : n = 0 := Nat.le_zero.mp h
    rfl
  | cons g gs ih =>
    cases n with
    | zero => rfl
    | succ n =>
      unfold Ipv6.zeros at h
      by_cases hg : g = 0
      · rw [List.takeWhile_cons_of_pos (by simp [hg])] at h
        rw [List.take_succ_cons, ih (Nat.le_of_succ_le_succ h), hg, List.replicate_succ]
      · rw [List.takeWhile_cons_of_neg (by simp [hg])] at h
        cases h

theorem isIpv6_chars (host : Ipv6) : IsIpv6 host host.chars := by
  unfold Ipv6.chars
  cases hmapped : host.mapped? with
  | some v4 =>
    have hffff : IsGroup ['f', 'f', 'f', 'f'] 0xffff := isGroup_toDigits 0xffff
    have hback : AreGroups true (['f', 'f', 'f', 'f'] ++ ':' :: v4.chars) (0xffff :: pair v4) :=
      .cons hffff (List.cons_ne_nil _ _) (.embedded v4)
    exact .compressed .nil hback (by decide : (5 : ℕ) ≠ 0) (groups_of_mapped? hmapped)
  | none =>
    dsimp only
    split_ifs with hlong
    · refine .compressed (areGroups_groupsChars _) (areGroups_groupsChars _)
        (Nat.ne_zero_of_lt hlong) ?_
      rw [← take_of_le_zeros (longestZeros_le host.groups), ← List.take_add, List.take_append_drop]
    · exact .full (areGroups_groupsChars host.groups)

theorem isScope_scopeChars (scope : UInt32) : IsScope scope (scopeChars scope) := by
  unfold scopeChars
  split_ifs with h
  · rw [h]
    exact .none
  · exact .some (isDecimal_write scope.toNat)

/-- What is written for an address is one of its texts. -/
theorem isText_chars (address : SocketAddress) : IsText address address.chars := by
  cases address with
  | v4 host port => exact .v4 (isDecimal_write port.toNat)
  | v6 host scope port =>
    exact .v6 (isIpv6_chars host) (isScope_scopeChars scope) (isDecimal_write port.toNat)

/-! ### What is read -/

theorem after?_eq_some_iff {c : Char} : after? c chars = some rest ↔ chars = c :: rest := by
  cases chars with
  | nil => simp [after?]
  | cons d chars =>
    rw [after?]
    split_ifs with h
    · simp [h]
    · simp [h]

theorem exists_of_number? {radix n : ℕ} {value? : Char → Option ℕ}
    (h : number? radix value? chars = some (n, rest)) :
    ∃ digits, digits ≠ [] ∧ (∀ c ∈ digits, (value? c).isSome = true) ∧
      (digits.filterMap value?).foldl (fun n d => radix * n + d) 0 = n ∧
        chars = digits ++ rest := by
  have hrest := eq_dropWhile_of_number? h
  refine ⟨chars.takeWhile fun c => (value? c).isSome, ?_, ?_, ?_, ?_⟩
  · intro hnil
    rw [number?, hnil] at h
    cases h
  · exact fun c hc => List.mem_takeWhile_imp (p := fun c => (value? c).isSome) hc
  · unfold number? at h
    split at h
    · cases h
    · exact (Prod.mk.inj (Option.some.inj h)).1
  · rw [hrest, List.takeWhile_append_dropWhile]

theorem exists_of_bounded? {max n : ℕ} (h : bounded? max chars = some (n, rest)) :
    ∃ digits, IsDecimal digits n ∧ n ≤ max ∧ chars = digits ++ rest := by
  obtain ⟨digits, hne, hsome, hfold, hchars⟩ := exists_of_number? (number?_of_bounded? h)
  have hall : ∀ c ∈ digits, c.isDigit = true := fun c hc => Numeral.isDigit_of_decimal? (hsome c hc)
  have hmax : n ≤ max := by
    unfold bounded? at h
    rw [number?_of_bounded? h] at h
    by_contra hlarge
    simp only [if_neg hlarge] at h
    cases h
  rw [Digit.filterMap_decimal? hall] at hfold
  exact ⟨digits, ⟨⟨hne, hall⟩, (Draft.ofDigits_values digits).symm.trans hfold⟩, hmax, hchars⟩

theorem eq_append_of_byte? {b : UInt8} (h : byte? chars = some (b, rest)) :
    chars = Numeral.write b.toNat ++ rest := by
  unfold byte? at h
  cases hbounded : bounded? 255 chars with
  | none => simp [hbounded] at h
  | some read =>
    obtain ⟨n, after⟩ := read
    obtain ⟨digits, ⟨hdigits, rfl⟩, hn, rfl⟩ := exists_of_bounded? hbounded
    simp only [hbounded, List.length_append, Nat.add_sub_cancel] at h
    split_ifs at h with hlong
    obtain ⟨rfl, rfl⟩ := Prod.mk.inj (Option.some.inj h)
    have hzero (hhead : digits.head? = some '0') : digits.length ≤ 1 := by
      rw [List.head?_append_of_ne_nil _ hdigits.1] at hlong
      by_contra hmany
      exact hlong (.inr ⟨hhead, Nat.not_le.mp hmany⟩)
    rw [UInt8.toNat_ofNat_of_lt' (Nat.lt_succ_of_le hn), Numeral.write,
      Draft.toDigits_ofDigitChars hdigits hzero]

theorem eq_append_of_ipv4? {host : Ipv4} (h : ipv4? chars = some (host, rest)) :
    chars = host.chars ++ rest := by
  unfold ipv4? at h
  simp only [Option.bind_eq_bind, Option.bind_eq_some_iff, after?_eq_some_iff] at h
  obtain ⟨⟨a, _⟩, ha, _, rfl, ⟨b, _⟩, hb, _, rfl, ⟨c, _⟩, hc, _, rfl, ⟨d, _⟩, hd, h⟩ := h
  obtain ⟨rfl, rfl⟩ := Prod.mk.inj (Option.some.inj h)
  rw [eq_append_of_byte? ha, eq_append_of_byte? hb, eq_append_of_byte? hc, eq_append_of_byte? hd]
  simp only [Ipv4.chars, List.append_assoc, List.cons_append]

theorem lt_of_hex? {c : Char} {d : ℕ} (h : Digit.hex? c = some d) : d < 16 := by
  unfold Digit.hex? Digit.lowerHex? Digit.decimal? at h
  split_ifs at h with hupper hlower hdecimal
  · have hrange : 65 ≤ c.toNat ∧ c.toNat ≤ 70 := hupper
    have hd := Option.some.inj h
    omega
  · have hrange : 97 ≤ c.toNat ∧ c.toNat ≤ 102 := hlower
    have hd := Option.some.inj h
    omega
  · have hrange : 48 ≤ c.toNat ∧ c.toNat ≤ 57 := hdecimal
    have hd := Option.some.inj h
    omega

theorem hexValue_lt (hdigits : ∀ c ∈ digits, (Digit.hex? c).isSome = true) :
    hexValue digits < 16 ^ digits.length := by
  induction digits using List.reverseRecOn with
  | nil => decide
  | append_singleton digits c ih =>
    obtain ⟨d, hc⟩ := Option.isSome_iff_exists.mp (hdigits c (by simp))
    have hd := lt_of_hex? hc
    have hlt := ih fun c hc => hdigits c (by simp [hc])
    rw [hexValue_append_singleton hc, List.length_append, List.length_singleton, pow_succ]
    omega

theorem exists_of_group? {g : UInt16} (h : group? chars = some (g, rest)) :
    ∃ digits, IsGroup digits g ∧ chars = digits ++ rest := by
  unfold group? at h
  cases hnumber : number? 16 Digit.hex? chars with
  | none => simp [hnumber] at h
  | some read =>
    obtain ⟨n, after⟩ := read
    obtain ⟨digits, hne, hall, rfl, rfl⟩ := exists_of_number? hnumber
    simp only [hnumber, List.length_append, Nat.add_sub_cancel] at h
    split_ifs at h with hlong
    obtain ⟨rfl, rfl⟩ := Prod.mk.inj (Option.some.inj h)
    have hlength : digits.length ≤ 4 := Nat.not_lt.mp hlong
    have hlt : hexValue digits < 16 ^ 4 :=
      (hexValue_lt hall).trans_le (Nat.pow_le_pow_right (by decide) hlength)
    refine ⟨digits, ⟨⟨hne, hall⟩, hlength, ?_⟩, rfl⟩
    exact (UInt16.toNat_ofNat_of_lt' hlt).symm

theorem eq_behind_of_separated? {first : Bool} (h : separated? first chars = some rest) :
    chars = behind first rest := by
  cases first with
  | true => exact Option.some.inj h
  | false => exact after?_eq_some_iff.mp h

/-- Groups are read of the front of a text, or none are and nothing is taken away. -/
inductive TakesGroups (first : Bool) (chars : List Char) :
    List UInt16 × Bool × List Char → Prop where
  | none : TakesGroups first chars ([], false, chars)
  | some {embedded : Bool} {text rest : List Char} {gs : List UInt16} (hne : gs ≠ [])
      (h : AreGroups embedded text gs) (hchars : chars = behind first (text ++ rest)) :
      TakesGroups first chars (gs, embedded, rest)

/-- A group and what is read behind it. -/
theorem TakesGroups.cons {first : Bool} {g : UInt16} {read : List UInt16 × Bool × List Char}
    (h : IsGroup digits g) (hchars : chars = behind first (digits ++ rest))
    (hread : TakesGroups false rest read) :
    TakesGroups first chars (g :: read.1, read.2.1, read.2.2) := by
  cases hread with
  | none => exact .some (List.cons_ne_nil _ _) (.last h) hchars
  | @some embedded text after gs hne htext hrest =>
    refine .some (List.cons_ne_nil _ _) (.cons h hne htext) ?_
    rw [hchars, hrest, List.append_assoc]
    rfl

theorem takesGroups_groups (limit : ℕ) (first : Bool) (chars : List Char) :
    TakesGroups first chars (groups limit first chars) := by
  induction limit generalizing chars first with
  | zero => exact .none
  | succ limit ih =>
    unfold groups
    cases hseparated : separated? first chars with
    | none => exact .none
    | some more =>
      have hchars := eq_behind_of_separated? hseparated
      dsimp only
      cases hipv4 : (if 0 < limit then ipv4? more else none) with
      | some read =>
        split_ifs at hipv4
        rw [eq_append_of_ipv4? hipv4] at hchars
        exact .some (List.cons_ne_nil _ _) (.embedded read.1) hchars
      | none =>
        dsimp only
        cases hgroup : group? more with
        | none => exact .none
        | some read =>
          obtain ⟨digits, hdigits, hmore⟩ := exists_of_group? hgroup
          rw [hmore] at hchars
          exact .cons hdigits hchars (ih false read.2)

theorem length_groups_le (limit : ℕ) (first : Bool) (chars : List Char) :
    (groups limit first chars).1.length ≤ limit := by
  induction limit generalizing chars first with
  | zero => exact Nat.le_refl _
  | succ limit ih =>
    unfold groups
    cases separated? first chars with
    | none => exact Nat.zero_le _
    | some more =>
      dsimp only
      cases hipv4 : (if 0 < limit then ipv4? more else none) with
      | some read =>
        split_ifs at hipv4 with hlimit
        exact Nat.succ_le_succ hlimit
      | none =>
        dsimp only
        cases group? more with
        | none => exact Nat.zero_le _
        | some read => exact Nat.succ_le_succ (ih false read.2)

theorem TakesGroups.exists_first {embedded : Bool} {gs : List UInt16}
    (h : TakesGroups true chars (gs, embedded, rest)) :
    ∃ text, AreGroups embedded text gs ∧ chars = text ++ rest := by
  cases h with
  | none => exact ⟨[], .nil, rfl⟩
  | some hne h hchars => exact ⟨_, h, hchars⟩

theorem ofGroups?_eq_some_iff {gs : List UInt16} {host : Ipv6} :
    ofGroups? gs = some host ↔ host.groups = gs := by
  constructor
  · intro h
    unfold ofGroups? at h
    split_ifs at h
    rw [← Option.some.inj h]
  · rintro rfl
    exact ofGroups?_groups host

/-- Two colons and what is read behind them fill an address up with zero groups. -/
theorem exists_of_compressed {front : List UInt16} {before : List Char} {host : Ipv6}
    (hbefore : AreGroups false before front) (hshort : front.length < 8)
    (h : (do
      let (back, _, rest) := groups (7 - front.length) true chars
      let host ← ofGroups? (front ++ List.replicate (8 - front.length - back.length) 0 ++ back)
      return (host, rest)) = some (host, rest)) :
    ∃ text, IsIpv6 host text ∧ before ++ ':' :: ':' :: chars = text ++ rest := by
  have htakes := takesGroups_groups (7 - front.length) true chars
  have hfew := length_groups_le (7 - front.length) true chars
  revert h htakes hfew
  generalize groups (7 - front.length) true chars = read
  obtain ⟨back, embedded, after⟩ := read
  intro h htakes hfew
  obtain ⟨text, htext, rfl⟩ := htakes.exists_first
  simp only [Option.bind_eq_bind, Option.bind_eq_some_iff, ofGroups?_eq_some_iff] at h hfew
  obtain ⟨_, hgroups, h⟩ := h
  obtain ⟨rfl, rfl⟩ := Prod.mk.inj (Option.some.inj h)
  have hzeros : 8 - front.length - back.length ≠ 0 := by omega
  refine ⟨_, .compressed hbefore htext hzeros hgroups, ?_⟩
  simp only [List.append_assoc, List.cons_append]

theorem exists_of_ipv6? {host : Ipv6} (h : ipv6? chars = some (host, rest)) :
    ∃ text, IsIpv6 host text ∧ chars = text ++ rest := by
  have htakes := takesGroups_groups 8 true chars
  have hfew := length_groups_le 8 true chars
  unfold ipv6? at h
  revert h htakes hfew
  generalize groups 8 true chars = read
  obtain ⟨front, embedded, more⟩ := read
  intro h htakes hfew
  obtain ⟨text, htext, rfl⟩ := htakes.exists_first
  cases hfull : ofGroups? front with
  | some whole =>
    simp only [hfull] at h
    obtain ⟨rfl, rfl⟩ := Prod.mk.inj (Option.some.inj h)
    rw [← ofGroups?_eq_some_iff.mp hfull] at htext
    exact ⟨text, .full htext, rfl⟩
  | none =>
    have hne : front.length ≠ 8 := by
      intro hlength
      rw [ofGroups?, dif_pos hlength] at hfull
      cases hfull
    simp only [hfull] at h
    split_ifs at h with hembedded
    obtain rfl : embedded = false := Bool.not_eq_true _ ▸ hembedded
    simp only [Option.bind_eq_bind, Option.bind_eq_some_iff (x := after? _ _),
      after?_eq_some_iff] at h
    obtain ⟨_, rfl, _, rfl, h⟩ := h
    exact exists_of_compressed htext (lt_of_le_of_ne hfew hne) h

theorem exists_of_scope? {scope : UInt32} (h : scope? chars = (scope, rest)) :
    ∃ text, IsScope scope text ∧ chars = text ++ rest := by
  have hnone (h : ((0 : UInt32), chars) = (scope, rest)) :
      ∃ text, IsScope scope text ∧ chars = text ++ rest := by
    obtain ⟨rfl, rfl⟩ := Prod.mk.inj h
    exact ⟨[], .none, rfl⟩
  unfold scope? at h
  cases hafter : after? '%' chars with
  | none =>
    simp only [hafter] at h
    exact hnone h
  | some more =>
    simp only [hafter] at h
    cases hbounded : bounded? 0xffffffff more with
    | none =>
      simp only [hbounded] at h
      exact hnone h
    | some read =>
      obtain ⟨n, after⟩ := read
      simp only [hbounded] at h
      obtain ⟨rfl, rfl⟩ := Prod.mk.inj h
      obtain ⟨digits, hdigits, hn, rfl⟩ := exists_of_bounded? hbounded
      rw [← UInt32.toNat_ofNat_of_lt' (Nat.lt_succ_of_le hn)] at hdigits
      exact ⟨_, .some hdigits, after?_eq_some_iff.mp hafter⟩

theorem exists_of_port? {port : UInt16} (h : port? chars = some port) :
    ∃ digits, IsDecimal digits port.toNat ∧ chars = ':' :: digits := by
  unfold port? at h
  simp only [Option.bind_eq_bind, Option.bind_eq_some_iff, after?_eq_some_iff] at h
  obtain ⟨_, rfl, ⟨n, rest⟩, hbounded, h⟩ := h
  obtain ⟨digits, hdigits, hn, rfl⟩ := exists_of_bounded? hbounded
  dsimp only at h
  split_ifs at h with hempty
  obtain rfl := Option.some.inj h
  obtain rfl : rest = [] := List.isEmpty_iff.mp hempty
  rw [← UInt16.toNat_ofNat_of_lt' (Nat.lt_succ_of_le hn)] at hdigits
  exact ⟨digits, hdigits, by rw [List.append_nil]⟩

/-- An address is read of its texts and of no others. -/
theorem ofChars?_eq_some_iff {address : SocketAddress} :
    ofChars? chars = some address ↔ IsText address chars := by
  refine ⟨fun h => ?_, ofChars?_of_isText⟩
  unfold ofChars? at h
  cases hipv4 : ipv4? chars with
  | some read =>
    obtain ⟨host, rest⟩ := read
    simp only [hipv4, Option.map_eq_some_iff] at h
    obtain ⟨port, hport, rfl⟩ := h
    obtain ⟨digits, hdigits, rfl⟩ := exists_of_port? hport
    rw [eq_append_of_ipv4? hipv4]
    exact .v4 hdigits
  | none =>
    simp only [hipv4, Option.bind_eq_bind, Option.bind_eq_some_iff, after?_eq_some_iff] at h
    obtain ⟨_, rfl, ⟨host, more⟩, hhost, h⟩ := h
    obtain ⟨text, htext, rfl⟩ := exists_of_ipv6? hhost
    cases hscope : scope? more with
    | mk scope after =>
      obtain ⟨scopeText, hscopeText, rfl⟩ := exists_of_scope? hscope
      simp only [hscope] at h
      obtain ⟨_, rfl, port, hport, h⟩ := h
      obtain ⟨digits, hdigits, rfl⟩ := exists_of_port? hport
      obtain rfl := Option.some.inj h
      have hread := IsText.v6 htext hscopeText hdigits
      simpa only [List.append_assoc, List.cons_append] using hread

end QuorumVault.SocketAddress
