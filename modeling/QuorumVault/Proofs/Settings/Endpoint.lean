import QuorumVault.Proofs.Settings.SocketAddress
import QuorumVault.Settings.Endpoint

/-!
# Reading the texts of endpoints

Which texts an endpoint has (`IsText`), that it is read of these and of no others
(`ofText?_eq_ok_iff`), and that what is written for it is one of them: an endpoint that has been
read of any of its texts is read of its own text again (`text_round_trip`).  The three schemes begin
with different characters, so that a text has only one of them.
-/

namespace QuorumVault.Endpoint

variable {e : Endpoint} {chars rest : List Char}

/-! ### Texts -/

/-- The schemes with which texts begin. -/
inductive Scheme where
  | tcp
  | file
  | machine
deriving DecidableEq

def Scheme.text : Scheme → String
  | .tcp => "tcp://"
  | .file => "unix://"
  | .machine => "vsock://"

def scheme : Endpoint → Scheme
  | .tcp _ => .tcp
  | .file _ => .file
  | .machine _ _ => .machine

/-- What stands behind the scheme of an endpoint. -/
inductive Follows : Endpoint → List Char → Prop where
  | tcp {address : SocketAddress} {chars : List Char} (h : address.IsText chars) :
      Follows (.tcp address) chars
  | file {path : String} (h : path ≠ "") : Follows (.file path) path.toList
  /-- The numerals may have a plus sign and zeros in front. -/
  | machine {context port : UInt32} {first second : List Char}
      (hfirst : Numeral.Denotes first context.toNat) (hsecond : Numeral.Denotes second port.toNat) :
      Follows (.machine context port) (first ++ ':' :: second)

/-- The texts of an endpoint. -/
def IsText (e : Endpoint) (text : String) : Prop :=
  ∃ rest, Follows e rest ∧ text.toList = e.scheme.text.toList ++ rest

/-! ### Schemes -/

theorem strip?_eq_some_iff {front : List Char} :
    strip? front chars = some rest ↔ chars = front ++ rest := by
  induction front generalizing chars with
  | nil => simp [strip?]
  | cons c front ih =>
    cases chars with
    | nil => simp [strip?]
    | cons d chars =>
      rw [strip?]
      split_ifs with h
      · rw [ih, h, List.cons_append, List.cons_inj_right]
      · simp [Ne.symm h]

/-- Schemes differ already in their first characters. -/
theorem Scheme.eq_of_append {s s' : Scheme} {rest rest' : List Char}
    (h : s.text.toList ++ rest = s'.text.toList ++ rest') : s = s' := by
  cases s <;> cases s' <;> first | rfl | simp [Scheme.text] at h

/-- The endpoint that the characters behind a scheme denote. -/
def ofRest? : Scheme → List Char → Except String Endpoint
  | .tcp, rest =>
    match SocketAddress.ofChars? rest with
    | some address => .ok (tcp address)
    | none => .error "expected host:port"
  | .file, rest =>
    if rest.isEmpty then .error "empty socket path" else .ok (file (String.ofList rest))
  | .machine, rest => machine? rest

theorem strip?_of_ne {s s' : Scheme} (hne : s ≠ s') (rest : List Char) :
    strip? s.text.toList (s'.text.toList ++ rest) = none := by
  cases h : strip? s.text.toList (s'.text.toList ++ rest) with
  | none => rfl
  | some rest' => exact absurd (Scheme.eq_of_append (strip?_eq_some_iff.mp h)).symm hne

theorem ofChars?_eq (chars : List Char) : ofChars? chars =
    match strip? Scheme.tcp.text.toList chars with
    | some rest => ofRest? .tcp rest
    | none =>
      match strip? Scheme.file.text.toList chars with
      | some rest => ofRest? .file rest
      | none =>
        match strip? Scheme.machine.text.toList chars with
        | some rest => ofRest? .machine rest
        | none => .error "unknown scheme" :=
  rfl

theorem ofChars?_append (s : Scheme) (rest : List Char) :
    ofChars? (s.text.toList ++ rest) = ofRest? s rest := by
  have hself : strip? s.text.toList (s.text.toList ++ rest) = some rest :=
    strip?_eq_some_iff.mpr rfl
  rw [ofChars?_eq]
  cases s with
  | tcp => simp only [hself]
  | file => simp only [hself, strip?_of_ne (show Scheme.tcp ≠ .file by decide)]
  | machine =>
    simp only [hself, strip?_of_ne (show Scheme.tcp ≠ .machine by decide),
      strip?_of_ne (show Scheme.file ≠ .machine by decide)]

/-- A text without a scheme is refused. -/
theorem exists_append_of_ofChars? (h : ofChars? chars = .ok e) :
    ∃ (s : Scheme) (rest : List Char), chars = s.text.toList ++ rest := by
  rw [ofChars?_eq] at h
  split at h
  · exact ⟨_, _, strip?_eq_some_iff.mp ‹_›⟩
  · split at h
    · exact ⟨_, _, strip?_eq_some_iff.mp ‹_›⟩
    · split at h
      · exact ⟨_, _, strip?_eq_some_iff.mp ‹_›⟩
      · cases h

/-! ### What is behind a scheme -/

theorem word?_eq_some_iff {n : UInt32} : word? chars = some n ↔ Numeral.Denotes chars n.toNat := by
  have hread : word? chars = some n ↔ ∃ m, Numeral.read 0xffffffff chars = .ok m ∧
      UInt32.ofNat m = n := by
    unfold word?
    cases Numeral.read 0xffffffff chars with
    | error fault => simp
    | ok m => simp
  rw [hread]
  simp only [Numeral.read_eq_ok_iff]
  constructor
  · rintro ⟨m, ⟨hm, hmax⟩, rfl⟩
    rwa [UInt32.toNat_ofNat_of_lt' (Nat.lt_succ_of_le hmax)]
  · intro h
    exact ⟨_, ⟨h, Nat.le_of_lt_succ n.toNat_lt⟩, UInt32.ofNat_toNat⟩

/-- The characters of a numeral are not the colon between two of them. -/
theorem ne_colon_of_denotes {n : ℕ} (h : Numeral.Denotes chars n) : ∀ c ∈ chars, c ≠ ':' := by
  have hdigits : ∀ c ∈ Numeral.unsigned chars, c ≠ ':' := by
    rintro c hc rfl
    exact absurd (h.1.2 ':' hc) (by decide)
  unfold Numeral.unsigned at hdigits
  split at hdigits
  · exact List.forall_mem_cons.mpr ⟨by decide, hdigits⟩
  · exact hdigits

theorem machine?_append {first second : List Char} {context port : UInt32}
    (hfirst : Numeral.Denotes first context.toNat) (hsecond : Numeral.Denotes second port.toNat) :
    machine? (first ++ ':' :: second) = .ok (machine context port) := by
  -- the text is cut at its first colon, and there is none in the first numeral
  have hcolon : ∀ c ∈ (':' :: second).head?, decide (c ≠ ':') = false := by
    intro c hc
    obtain rfl : ':' = c := Option.some.inj hc
    rfl
  obtain ⟨htake, hdrop⟩ := Digit.takeWhile_append
    (fun c hc => decide_eq_true (ne_colon_of_denotes hfirst c hc)) hcolon
  unfold machine?
  simp only [htake, hdrop, word?_eq_some_iff.mpr hfirst, word?_eq_some_iff.mpr hsecond]

theorem exists_of_machine? (h : machine? chars = .ok e) :
    ∃ context port first second, e = machine context port ∧
      Numeral.Denotes first context.toNat ∧ Numeral.Denotes second port.toNat ∧
        chars = first ++ ':' :: second := by
  have hsplit := List.takeWhile_append_dropWhile (p := (· ≠ ':')) (l := chars)
  have hhead := List.head?_dropWhile_not (· ≠ ':') chars
  unfold machine? at h
  cases hdrop : chars.dropWhile (· ≠ ':') with
  | nil =>
    simp only [hdrop] at h
    cases h
  | cons c second =>
    rw [hdrop] at hsplit hhead
    obtain rfl : c = ':' := by simpa using hhead
    simp only [hdrop] at h
    cases hfirst : word? (chars.takeWhile (· ≠ ':')) with
    | none =>
      simp only [hfirst] at h
      cases h
    | some context =>
      cases hsecond : word? second with
      | none =>
        simp only [hfirst, hsecond] at h
        cases h
      | some port =>
        simp only [hfirst, hsecond] at h
        exact ⟨context, port, _, second, (Except.ok.inj h).symm, word?_eq_some_iff.mp hfirst,
          word?_eq_some_iff.mp hsecond, hsplit.symm⟩

theorem ofRest?_eq_ok_iff {s : Scheme} :
    ofRest? s rest = .ok e ↔ e.scheme = s ∧ Follows e rest := by
  constructor
  · intro h
    cases s with
    | tcp =>
      unfold ofRest? at h
      cases haddress : SocketAddress.ofChars? rest with
      | none =>
        simp only [haddress] at h
        cases h
      | some address =>
        simp only [haddress] at h
        obtain rfl := Except.ok.inj h
        exact ⟨rfl, .tcp (SocketAddress.ofChars?_eq_some_iff.mp haddress)⟩
    | file =>
      rw [ofRest?] at h
      split_ifs at h with hempty
      obtain rfl := Except.ok.inj h
      have hpath : String.ofList rest ≠ "" := by
        simpa using hempty
      have hfollows := Follows.file hpath
      rw [String.toList_ofList] at hfollows
      exact ⟨rfl, hfollows⟩
    | machine =>
      obtain ⟨context, port, first, second, rfl, hfirst, hsecond, rfl⟩ := exists_of_machine? h
      exact ⟨rfl, .machine hfirst hsecond⟩
  · rintro ⟨rfl, h⟩
    cases h with
    | tcp h => simp only [scheme, ofRest?, SocketAddress.ofChars?_of_isText h]
    | @file path h =>
      have hpath : ¬path.toList.isEmpty = true := by
        simpa using h
      simp only [scheme, ofRest?, if_neg hpath, String.ofList_toList]
    | machine hfirst hsecond => exact machine?_append hfirst hsecond

/-! ### What is written -/

theorem denotes_write (n : ℕ) : Numeral.Denotes (Numeral.write n) n := by
  have hdigits := Draft.areDigits_toDigits n
  have hunsigned : Numeral.unsigned (Numeral.write n) = Numeral.write n := by
    unfold Numeral.unsigned
    split
    -- no numeral that is written begins with a sign
    · rename_i c rest hplus
      have hmem : '+' ∈ Nat.toDigits 10 n := by
        rw [show Nat.toDigits 10 n = '+' :: c :: rest from hplus]
        exact List.mem_cons_self
      exact absurd (hdigits.2 '+' hmem) (by decide)
    · rfl
  unfold Numeral.Denotes
  rw [hunsigned]
  exact ⟨hdigits, Nat.ofDigitChars_ten_toDigits⟩

theorem isText_text (he : e ≠ .file "") : IsText e e.text := by
  cases e with
  | tcp address =>
    refine ⟨_, .tcp (SocketAddress.isText_chars address), ?_⟩
    simp only [text, scheme, Scheme.text, String.toList_append, String.toList_ofList]
  | file path =>
    have hpath : path ≠ "" := fun h => he (h ▸ rfl)
    refine ⟨_, .file hpath, ?_⟩
    simp only [text, scheme, Scheme.text, String.toList_append]
  | machine context port =>
    have hword (n : UInt32) : (toString n).toList = Numeral.write n.toNat := by
      rw [Numeral.write, ← String.toList_ofList (l := Nat.toDigits 10 n.toNat),
        ← Nat.toString_eq_ofList_toDigits]
      rfl
    refine ⟨_, .machine (denotes_write context.toNat) (denotes_write port.toNat), ?_⟩
    simp only [text, scheme, Scheme.text, String.toList_append, hword, List.append_assoc]
    rfl

/-! ### Reading and writing -/

theorem ofChars?_eq_ok_iff : ofChars? chars = .ok e ↔
    ∃ rest, Follows e rest ∧ chars = e.scheme.text.toList ++ rest := by
  constructor
  · intro h
    obtain ⟨s, rest, rfl⟩ := exists_append_of_ofChars? h
    rw [ofChars?_append] at h
    obtain ⟨rfl, hfollows⟩ := ofRest?_eq_ok_iff.mp h
    exact ⟨rest, hfollows, rfl⟩
  · rintro ⟨rest, hfollows, rfl⟩
    rw [ofChars?_append]
    exact ofRest?_eq_ok_iff.mpr ⟨rfl, hfollows⟩

theorem ofText?_eq_ok_iff {text : String} : ofText? text = .ok e ↔ IsText e text := by
  rw [IsText, ← ofChars?_eq_ok_iff, ofText?]
  cases ofChars? text.toList with
  | error reason => simp
  | ok endpoint => simp

theorem exists_of_ofText? {text : String} {fault : SettingsFault}
    (h : ofText? text = .error fault) : ∃ reason, fault = .endpoint text reason := by
  unfold ofText? at h
  cases hchars : ofChars? text.toList with
  | error reason =>
    simp only [hchars] at h
    exact ⟨reason, (Except.error.inj h).symm⟩
  | ok endpoint =>
    simp only [hchars] at h
    cases h

theorem ne_of_isText {text : String} (h : IsText e text) : e ≠ .file "" := by
  rintro rfl
  obtain ⟨rest, hfollows, -⟩ := h
  cases hfollows with
  | file h => exact h rfl

/-- **Texts of endpoints.**  Every endpoint that has been read of a text is read of its own text as
well.  The texts of which it is read are those of `IsText`, in which the numerals and the groups of
an address may have other forms than the ones that are written; every endpoint but a file without a
path has such texts.  A text of an endpoint begins with the scheme of that endpoint and with no
other, and a text that is refused is named in the fault. -/
theorem text_round_trip :
    (∀ (text : String) (e : Endpoint), ofText? text = .ok e → ofText? e.text = .ok e) ∧
    (∀ (text : String) (e : Endpoint), ofText? text = .ok e ↔ IsText e text) ∧
    (∀ e : Endpoint, e ≠ .file "" → ofText? e.text = .ok e) ∧
    (∀ (text : String) (e : Endpoint) (s : Scheme), ofText? text = .ok e →
      (s.text.toList <+: text.toList ↔ s = e.scheme)) ∧
    ∀ (text : String) (fault : SettingsFault), ofText? text = .error fault →
      ∃ reason, fault = .endpoint text reason ∧
        fault.message = s!"Invalid endpoint: {text}: {reason}" := by
  have hwritten (e : Endpoint) (he : e ≠ .file "") : ofText? e.text = .ok e :=
    ofText?_eq_ok_iff.mpr (isText_text he)
  refine ⟨fun text e h => ?_, fun text e => ofText?_eq_ok_iff, hwritten, ?_, ?_⟩
  · exact hwritten e (ne_of_isText (ofText?_eq_ok_iff.mp h))
  · intro text e s h
    obtain ⟨rest, -, htext⟩ := ofText?_eq_ok_iff.mp h
    rw [htext]
    constructor
    · rintro ⟨rest', hrest⟩
      exact Scheme.eq_of_append hrest
    · rintro rfl
      exact ⟨rest, rfl⟩
  · intro text fault h
    obtain ⟨reason, rfl⟩ := exists_of_ofText? h
    exact ⟨reason, rfl, rfl⟩

/-- An address that is given with zeros in front of its numerals, with some of its zero groups and
with an IPv4 address at its end is written without these. -/
theorem text_round_trip_of_scoped : ∃ e : Endpoint,
    ofText? "tcp://[00aB::0:0:1.2.3.4%007]:0080" = .ok e ∧
      e.text = "tcp://[ab::102:304%7]:80" ∧ ofText? e.text = .ok e := by
  have hread : ofText? "tcp://[00aB::0:0:1.2.3.4%007]:0080" =
      .ok (.tcp (.v6 ⟨[0xab, 0, 0, 0, 0, 0, 0x102, 0x304], rfl⟩ 7 80)) := by
    decide +kernel
  refine ⟨_, hread, by decide +kernel, ?_⟩
  exact text_round_trip.1 _ _ hread

end QuorumVault.Endpoint
