import Mathlib.Tactic
import QuorumVault.Proofs.Token.Format

/-!
# The order of the checks on a token

A text is judged by the first check that it does not pass (`Judged`), and `verify` gives exactly
this judgement on every text (`verify_eq_iff_judged`).  Bytes of sufficient length are those of five
parts in exactly one way (`Parts.existsUnique_bytes_eq`), so each check reads a part that is there.

The authentication code is checked before the time of issue is read.  A text whose code is wrong is
therefore refused whatever the time (`verify_of_not_authentic`), and for a cause that shows no more
of it than its length and its version (`verify_congr_of_not_authentic`).

The main result is `verify_exact`.
-/

namespace QuorumVault

theorem Timestamp.ofSeconds?_eq_none_iff {seconds : ℤ} :
    ofSeconds? seconds = none ↔ ¬(ofSeconds seconds).IsCalendarSecond := by
  rw [ofSeconds?, IsCalendarSecond, ofSeconds]
  simp

namespace Token

/-- A token is refused for its age as too new or as too old. -/
theorem eq_notYetValid_or_eq_expired {issued now : Timestamp} {maxAge : Option Duration}
    {fault : TokenFault} (h : checkAge issued now maxAge = .error fault) :
    fault = .notYetValid ∨ fault = .expired := by
  unfold checkAge at h
  dsimp only at h
  split_ifs at h with hearly
  · exact .inl (Except.error.inj h).symm
  · cases maxAge with
    | none => cases h
    | some limit =>
      dsimp only at h
      split_ifs at h with hold
      exact .inr (Except.error.inj h).symm

theorem decode?_encode (raw : Bytes) :
    Base64.address.decode? (Base64.address.encode raw) = some raw :=
  (Base64.decode?_eq_some_iff Base64.unambiguous_address).mpr rfl

/-! ### The parts of a token -/

/-- The parts of a token in the order in which they stand. -/
@[ext] structure Parts where
  version : UInt8
  stamp : Octets 8
  iv : Octets 16
  cipherText : Bytes
  code : Octets 32
  /-- There is room for a tag. -/
  tagLength_le : Gcm.tagLength ≤ cipherText.length

namespace Parts

def header (p : Parts) : Bytes := p.version :: p.stamp.toList

/-- The bytes behind which the authentication code stands. -/
def body (p : Parts) : Bytes := p.header ++ p.iv.toList ++ p.cipherText

def bytes (p : Parts) : Bytes := p.body ++ p.code.toList

def text (p : Parts) : String := Base64.address.encode p.bytes

/-- The time of issue: the stamp as a signed number, highest byte first. -/
def seconds (p : Parts) : ℤ := (BitVec.ofNat 64 (Bytes.toNatBE p.stamp.toList)).toInt

/-- The locked payload. -/
def box (p : Parts) : SecretBox := ⟨p.cipherText, p.iv, p.header⟩

/-- The version is the one that is read and the authentication code is right. -/
def Genuine (keys : TokenKeys) (p : Parts) : Prop :=
  p.version = 0x80 ∧ p.code = Hmac.tag keys.signing.toList p.body

theorem length_header (p : Parts) : p.header.length = headerLength := by
  simp [header, headerLength]

theorem length_body (p : Parts) : p.body.length = headerLength + 16 + p.cipherText.length := by
  simp [body, length_header, Nat.add_assoc]

theorem length_bytes (p : Parts) :
    p.bytes.length = headerLength + 16 + p.cipherText.length + codeLength := by
  simp [bytes, length_body, codeLength]

theorem minLength_le_length_bytes (p : Parts) : minLength ≤ p.bytes.length := by
  have hroom := p.tagLength_le
  rw [length_bytes, minLength]
  omega

/-- Bytes of sufficient length can be cut into parts. -/
theorem exists_bytes_eq {raw : Bytes} (hlen : minLength ≤ raw.length) :
    ∃ p : Parts, p.bytes = raw := by
  match raw, hlen with
  | b :: rest, hlen =>
    have hrest : 72 ≤ rest.length := by
      simp only [minLength, headerLength, Gcm.tagLength, codeLength, List.length_cons] at hlen
      omega
    have hstamp : (rest.take 8).length = 8 := by
      rw [List.length_take]
      omega
    have hiv : ((rest.drop 8).take 16).length = 16 := by
      rw [List.length_take, List.length_drop]
      omega
    set tail := (rest.drop 8).drop 16 with htail
    have htailLength : 48 ≤ tail.length := by
      rw [htail, List.length_drop, List.length_drop]
      omega
    have hcipher : Gcm.tagLength ≤ (tail.take (tail.length - 32)).length := by
      rw [List.length_take, Gcm.tagLength]
      omega
    have hcode : (tail.drop (tail.length - 32)).length = 32 := by
      rw [List.length_drop]
      omega
    refine ⟨⟨b, ⟨_, hstamp⟩, ⟨_, hiv⟩, _, ⟨_, hcode⟩, hcipher⟩, ?_⟩
    simp only [bytes, body, header, List.cons_append, List.append_assoc, List.take_append_drop]
    rw [htail, List.take_append_drop, List.take_append_drop]

theorem bytes_injective : Function.Injective bytes := by
  intro p q h
  -- every part but the ciphertext has a fixed length, so the code is split off from behind
  have hcodes : p.code.toList.length = q.code.toList.length := by simp
  obtain ⟨hbody, hcode⟩ := List.append_inj' h hcodes
  have hheaders : p.header.length = q.header.length := by rw [length_header, length_header]
  rw [body, body, List.append_assoc, List.append_assoc] at hbody
  obtain ⟨hheader, hlocked⟩ := List.append_inj hbody hheaders
  obtain ⟨hversion, hstamp⟩ := List.cons.inj hheader
  have hivs : p.iv.toList.length = q.iv.toList.length := by simp
  obtain ⟨hiv, hcipher⟩ := List.append_inj hlocked hivs
  exact Parts.ext hversion (Octets.ext hstamp) (Octets.ext hiv) hcipher (Octets.ext hcode)

/-- Bytes of sufficient length are those of exactly one choice of parts. -/
theorem existsUnique_bytes_eq {raw : Bytes} (hlen : minLength ≤ raw.length) :
    ∃! p : Parts, p.bytes = raw := by
  obtain ⟨p, hp⟩ := exists_bytes_eq hlen
  exact ⟨p, hp, fun q hq => bytes_injective (hq.trans hp.symm)⟩

theorem headerSeconds_header (p : Parts) : headerSeconds p.header = p.seconds := by
  have hlt : Bytes.toNatBE p.stamp.toList < 2 ^ 64 := by
    have h := Bytes.toNatBE_lt p.stamp.toList
    rwa [p.stamp.length_toList] at h
  rw [headerSeconds, header, List.drop_one, List.tail_cons, seconds, BitVec.toInt_eq_toNat_cond,
    BitVec.toNat_ofNat, Nat.mod_eq_of_lt hlt]
  split_ifs <;> omega

/-- The text of parts is verified by one check after the other. -/
theorem verify_text (keys : TokenKeys) (p : Parts) (now : Timestamp) (maxAge : Option Duration) :
    verify keys p.text now maxAge =
      if p.version ≠ 0x80 then .error (.version p.version)
      else if p.code ≠ Hmac.tag keys.signing.toList p.body then .error .signature
      else
        match Timestamp.ofSeconds? p.seconds with
        | none => .error (.malformed "timestamp out of range")
        | some issued =>
          match checkAge issued now maxAge with
          | .error fault => .error fault
          | .ok () => .ok ⟨issued, p.box⟩ := by
  have hraw : Base64.address.decode? p.text = some p.bytes := decode?_encode p.bytes
  have hcut : p.bytes.length - codeLength = p.body.length := by
    rw [length_bytes, length_body, Nat.add_sub_cancel]
  have htake : p.bytes.take p.body.length = p.body := List.take_left
  have hdrop : p.bytes.drop p.body.length = p.code.toList := List.drop_left
  have hversion : p.bytes.getD 0 0 = p.version := rfl
  have hcode : (Hmac.tag keys.signing.toList p.body).toList ≠ p.code.toList ↔
      p.code ≠ Hmac.tag keys.signing.toList p.body := by
    rw [not_iff_not, eq_comm]
    exact ⟨Octets.ext, congrArg Octets.toList⟩
  obtain ⟨hheader, hiv, hcipher⟩ := parts_of_signedPart p.box p.length_header
  have hbody : signedPart p.box = p.body := rfl
  rw [hbody] at hheader hiv hcipher
  have hbox : SecretBox.ofParts? p.box.cipherText p.box.iv.toList p.box.associated = .ok p.box :=
    SecretBox.ofParts?_eq_ok_iff.mpr ⟨rfl, rfl, rfl⟩
  have hseconds : headerSeconds p.box.associated = p.seconds := p.headerSeconds_header
  unfold verify
  rw [hraw]
  dsimp only
  rw [if_neg (Nat.not_lt.mpr p.minLength_le_length_bytes), hversion, hcut, htake, hdrop, hheader,
    hiv, hcipher, hbox, hseconds]
  simp only [hcode]
  rfl

/-- Of a genuine token that was issued at a time of the calendar only the age is left to check. -/
theorem verify_text_of_genuine {keys : TokenKeys} {p : Parts} (hgenuine : p.Genuine keys)
    (hcalendar : (Timestamp.ofSeconds p.seconds).IsCalendarSecond) (now : Timestamp)
    (maxAge : Option Duration) :
    verify keys p.text now maxAge =
      (checkAge (.ofSeconds p.seconds) now maxAge).map fun _ => ⟨.ofSeconds p.seconds, p.box⟩ := by
  have hissued : Timestamp.ofSeconds? p.seconds = some (.ofSeconds p.seconds) :=
    Timestamp.ofSeconds?_eq_some_iff.mpr ⟨rfl, hcalendar⟩
  rw [verify_text, if_neg (not_not.mpr hgenuine.1), if_neg (not_not.mpr hgenuine.2), hissued]
  dsimp only
  cases checkAge (.ofSeconds p.seconds) now maxAge with
  | error fault => rfl
  | ok => rfl

end Parts

/-! ### Judging a text -/

variable {keys : TokenKeys} {now : Timestamp} {maxAge : Option Duration}

/-- How a text is judged: by the first check that it does not pass. -/
inductive Judged (keys : TokenKeys) (now : Timestamp) (maxAge : Option Duration) :
    String → Except TokenFault Verified → Prop where
  /-- It is not written for any bytes. -/
  | encoding {text : String} (hnone : ∀ raw, Base64.address.encode raw ≠ text) :
    Judged keys now maxAge text (.error (.malformed "invalid Base64 encoding"))
  /-- It is written for too few bytes. -/
  | length {raw : Bytes} (hshort : raw.length < 73) :
    Judged keys now maxAge (Base64.address.encode raw)
      (.error (.malformed s!"{raw.length} bytes is too short"))
  | version {p : Parts} (hversion : p.version ≠ 0x80) :
    Judged keys now maxAge p.text (.error (.version p.version))
  | signature {p : Parts} (hversion : p.version = 0x80)
      (hcode : p.code ≠ Hmac.tag keys.signing.toList p.body) :
    Judged keys now maxAge p.text (.error .signature)
  /-- The time of issue is not one of the calendar. -/
  | calendar {p : Parts} (hgenuine : p.Genuine keys)
      (hcalendar : ¬(Timestamp.ofSeconds p.seconds).IsCalendarSecond) :
    Judged keys now maxAge p.text (.error (.malformed "timestamp out of range"))
  | age {p : Parts} {fault : TokenFault} (hgenuine : p.Genuine keys)
      (hcalendar : (Timestamp.ofSeconds p.seconds).IsCalendarSecond)
      (hage : checkAge (.ofSeconds p.seconds) now maxAge = .error fault) :
    Judged keys now maxAge p.text (.error fault)
  | passed {p : Parts} (hgenuine : p.Genuine keys)
      (hcalendar : (Timestamp.ofSeconds p.seconds).IsCalendarSecond)
      (hage : checkAge (.ofSeconds p.seconds) now maxAge = .ok ()) :
    Judged keys now maxAge p.text (.ok ⟨.ofSeconds p.seconds, p.box⟩)

/-- The text of parts gets a judgement. -/
theorem Parts.judged_verify (p : Parts) :
    Judged keys now maxAge p.text (verify keys p.text now maxAge) := by
  -- one check after the other: where it is not passed it gives the judgement
  by_cases hversion : p.version = 0x80
  swap
  · rw [p.verify_text, if_pos hversion]
    exact .version hversion
  by_cases hcode : p.code = Hmac.tag keys.signing.toList p.body
  swap
  · rw [p.verify_text, if_neg (not_not.mpr hversion), if_pos hcode]
    exact .signature hversion hcode
  have hgenuine : p.Genuine keys := ⟨hversion, hcode⟩
  by_cases hcalendar : (Timestamp.ofSeconds p.seconds).IsCalendarSecond
  swap
  · rw [p.verify_text, if_neg (not_not.mpr hversion), if_neg (not_not.mpr hcode),
      Timestamp.ofSeconds?_eq_none_iff.mpr hcalendar]
    exact .calendar hgenuine hcalendar
  rw [verify_text_of_genuine hgenuine hcalendar]
  cases hage : checkAge (.ofSeconds p.seconds) now maxAge with
  | error fault => exact .age hgenuine hcalendar hage
  | ok => exact .passed hgenuine hcalendar hage

theorem judged_verify (text : String) :
    Judged keys now maxAge text (verify keys text now maxAge) := by
  cases hraw : Base64.address.decode? text with
  | none =>
    have hverify : verify keys text now maxAge = .error (.malformed Base64.invalid) := by
      rw [verify, hraw]
    rw [hverify]
    apply Judged.encoding
    intro raw hencode
    rw [← hencode, decode?_encode] at hraw
    cases hraw
  | some raw =>
    obtain rfl := (Base64.decode?_eq_some_iff Base64.unambiguous_address).mp hraw
    by_cases hlen : raw.length < minLength
    · have hverify : verify keys (Base64.address.encode raw) now maxAge =
          .error (.malformed s!"{raw.length} bytes is too short") := by
        rw [verify, hraw]
        exact if_pos hlen
      rw [hverify]
      exact .length hlen
    · obtain ⟨p, rfl⟩ := Parts.exists_bytes_eq (Nat.not_lt.mp hlen)
      exact p.judged_verify

/-- A judgement is what `verify` gives. -/
theorem Judged.verify_eq {text : String} {result : Except TokenFault Verified}
    (h : Judged keys now maxAge text result) : verify keys text now maxAge = result := by
  cases h with
  | encoding hnone =>
    have hraw : Base64.address.decode? text = none := by
      refine Option.eq_none_iff_forall_ne_some.mpr fun raw hsome => hnone raw ?_
      exact ((Base64.decode?_eq_some_iff Base64.unambiguous_address).mp hsome).symm
    rw [verify, hraw, Base64.invalid]
  | @length raw hshort =>
    rw [verify, decode?_encode]
    exact if_pos hshort
  | version hversion => rw [Parts.verify_text, if_pos hversion]
  | signature hversion hcode =>
    rw [Parts.verify_text, if_neg (not_not.mpr hversion), if_pos hcode]
  | calendar hgenuine hcalendar =>
    rw [Parts.verify_text, if_neg (not_not.mpr hgenuine.1), if_neg (not_not.mpr hgenuine.2),
      Timestamp.ofSeconds?_eq_none_iff.mpr hcalendar]
  | age hgenuine hcalendar hage =>
    rw [Parts.verify_text_of_genuine hgenuine hcalendar, hage]
    rfl
  | passed hgenuine hcalendar hage =>
    rw [Parts.verify_text_of_genuine hgenuine hcalendar, hage]
    rfl

/-- Every text has exactly one judgement, the one that `verify` gives. -/
theorem verify_eq_iff_judged {text : String} {result : Except TokenFault Verified} :
    verify keys text now maxAge = result ↔ Judged keys now maxAge text result := by
  constructor
  · rintro rfl
    exact judged_verify text
  · exact Judged.verify_eq

/-- A text is never refused for a fault of the cipher. -/
theorem verify_ne_crypto (text : String) (fault : CryptoFault) :
    verify keys text now maxAge ≠ .error (.crypto fault) := by
  intro h
  cases verify_eq_iff_judged.mp h with
  | age _ _ hage =>
    rcases eq_notYetValid_or_eq_expired hage with hfault | hfault
    · cases hfault
    · cases hfault

/-! ### Texts whose authentication code is wrong -/

/-- A text that ends in the authentication code of what stands in front of it. -/
def Authentic (keys : TokenKeys) (text : String) : Prop :=
  ∃ body : Bytes,
    text = Base64.address.encode (body ++ (Hmac.tag keys.signing.toList body).toList)

theorem Parts.authentic_text_iff {p : Parts} :
    Authentic keys p.text ↔ p.code = Hmac.tag keys.signing.toList p.body := by
  constructor
  · rintro ⟨body, htext⟩
    have hbytes : p.bytes = body ++ (Hmac.tag keys.signing.toList body).toList := by
      apply Option.some.inj
      rw [← decode?_encode p.bytes, ← decode?_encode (body ++ _)]
      exact congrArg _ htext
    have hcodes : p.code.toList.length = (Hmac.tag keys.signing.toList body).toList.length := by
      simp
    obtain ⟨rfl, hcode⟩ := List.append_inj' hbytes hcodes
    exact Octets.ext hcode
  · intro hcode
    refine ⟨p.body, ?_⟩
    rw [text, bytes, hcode]

/-- Bytes whose authentication code is wrong are refused for their length, their version or this
code, whatever else they hold and whatever the time. -/
theorem verify_of_not_authentic {raw : Bytes}
    (hforged : ¬Authentic keys (Base64.address.encode raw)) :
    verify keys (Base64.address.encode raw) now maxAge =
      if raw.length < 73 then .error (.malformed s!"{raw.length} bytes is too short")
      else if raw.head? ≠ some 0x80 then .error (.version (raw.head?.getD 0))
      else .error .signature := by
  by_cases hlen : raw.length < 73
  · rw [if_pos hlen]
    exact Judged.verify_eq (.length hlen)
  rw [if_neg hlen]
  obtain ⟨p, rfl⟩ := Parts.exists_bytes_eq (Nat.not_lt.mp hlen)
  have hhead : p.bytes.head? = some p.version := rfl
  rw [hhead, Option.getD_some]
  by_cases hversion : p.version = 0x80
  · rw [if_neg (by simp [hversion])]
    exact Judged.verify_eq (.signature hversion fun hcode =>
      hforged (Parts.authentic_text_iff.mpr hcode))
  · rw [if_pos (by simpa using hversion)]
    exact Judged.verify_eq (.version hversion)

/-- The judgement of a text whose authentication code is wrong does not depend on the time. -/
theorem verify_of_not_authentic_congr {text : String} (hforged : ¬Authentic keys text)
    (now' : Timestamp) (maxAge' : Option Duration) :
    verify keys text now maxAge = verify keys text now' maxAge' := by
  by_cases hnone : ∀ raw, Base64.address.encode raw ≠ text
  · rw [Judged.verify_eq (.encoding hnone), Judged.verify_eq (.encoding hnone)]
  · push Not at hnone
    obtain ⟨raw, rfl⟩ := hnone
    rw [verify_of_not_authentic hforged, verify_of_not_authentic hforged]

/-! ### The order of the checks -/

/-- **The order of the checks.**  On every text `verify` gives the judgement of the first check that
the text does not pass: its encoding, its length, its version, its authentication code, its time of
issue, its age.  What is cut out of the bytes is always there, and no fault of the cipher comes up.
Nothing is read from a text before its authentication code has been found right, except its length
and its version: if the code is wrong, the answer does not depend on the time, and texts of equal
length and version get the same answer. -/
theorem verify_exact (keys : TokenKeys) :
    (∀ text now maxAge result,
      verify keys text now maxAge = result ↔ Judged keys now maxAge text result) ∧
    (∀ raw : Bytes, 73 ≤ raw.length → ∃! p : Parts, p.bytes = raw) ∧
    (∀ text now maxAge fault, verify keys text now maxAge ≠ .error (.crypto fault)) ∧
    (∀ text, ¬Authentic keys text → ∀ now now' maxAge maxAge',
      verify keys text now maxAge = verify keys text now' maxAge') ∧
    ∀ raw raw' : Bytes, ¬Authentic keys (Base64.address.encode raw) →
      ¬Authentic keys (Base64.address.encode raw') → raw.length = raw'.length →
        raw.head? = raw'.head? → ∀ now maxAge,
          verify keys (Base64.address.encode raw) now maxAge =
            verify keys (Base64.address.encode raw') now maxAge := by
  refine ⟨?_, ?_, ?_, ?_, ?_⟩
  · intro text now maxAge result
    exact verify_eq_iff_judged
  · intro raw hlen
    exact Parts.existsUnique_bytes_eq hlen
  · intro text now maxAge fault
    exact verify_ne_crypto text fault
  · intro text hforged now now' maxAge maxAge'
    exact verify_of_not_authentic_congr hforged now' maxAge'
  · intro raw raw' hforged hforged' hlen hhead now maxAge
    rw [verify_of_not_authentic hforged, verify_of_not_authentic hforged', hlen, hhead]

/-- Two texts that differ in the time of issue, both with a wrong authentication code: each is
refused for this code, before its time of issue is looked at. -/
theorem verify_exact_forged :
    ∃ p q : Parts, p.seconds = 0 ∧ q.seconds = -1 ∧
      verify ⟨.zeros 32, ⟨.zeros 32⟩⟩ p.text ⟨0, 0⟩ none = .error .signature ∧
      verify ⟨.zeros 32, ⟨.zeros 32⟩⟩ p.text ⟨100, 0⟩ (some (.ofSeconds 5)) = .error .signature ∧
      verify ⟨.zeros 32, ⟨.zeros 32⟩⟩ q.text ⟨0, 0⟩ none = .error .signature := by
  obtain ⟨hjudged, -, -, htime, hshape⟩ := verify_exact ⟨.zeros 32, ⟨.zeros 32⟩⟩
  have hother : Nontrivial (Octets 32) := ⟨.zeros 32, .ofFn fun _ => 1, by decide⟩
  have hforge : ∀ stamp : Octets 8, ∃ p : Parts, p.version = 0x80 ∧ p.stamp = stamp ∧
      p.cipherText.length = 16 ∧ ¬Authentic ⟨.zeros 32, ⟨.zeros 32⟩⟩ p.text := by
    intro stamp
    -- any code but the right one will do
    set body : Bytes := 0x80 :: stamp.toList ++ (Octets.zeros 16).toList ++ (Octets.zeros 16).toList
    obtain ⟨code, hcode⟩ := exists_ne (Hmac.tag (Octets.zeros 32).toList body)
    refine ⟨⟨0x80, stamp, .zeros 16, (Octets.zeros 16).toList, code, by simp [Gcm.tagLength]⟩,
      rfl, rfl, by simp, ?_⟩
    rw [Parts.authentic_text_iff]
    exact hcode
  obtain ⟨p, hversion, hp, hcipher, hforged⟩ := hforge (.zeros 8)
  obtain ⟨q, hversion', hq, hcipher', hforged'⟩ := hforge (.ofFn fun _ => 255)
  have hsignature : verify ⟨.zeros 32, ⟨.zeros 32⟩⟩ p.text ⟨0, 0⟩ none = .error .signature :=
    (hjudged _ _ _ _).mpr
      (.signature hversion fun hcode => hforged (Parts.authentic_text_iff.mpr hcode))
  have hlen : p.bytes.length = q.bytes.length := by
    rw [Parts.length_bytes, Parts.length_bytes, hcipher, hcipher']
  have hhead : p.bytes.head? = q.bytes.head? := by
    change some p.version = some q.version
    rw [hversion, hversion']
  refine ⟨p, q, ?_, ?_, hsignature, ?_, ?_⟩
  · rw [Parts.seconds, hp]
    decide
  · rw [Parts.seconds, hq]
    decide
  · rw [← hsignature]
    exact htime p.text hforged _ _ _ _
  · rw [← hsignature]
    exact (hshape p.bytes q.bytes hforged hforged' hlen hhead _ _).symm

end Token

end QuorumVault
