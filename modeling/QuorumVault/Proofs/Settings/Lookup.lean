import Mathlib.Tactic
import QuorumVault.Proofs.Json.Record
import QuorumVault.Proofs.Text.Blank
import QuorumVault.Proofs.Text.Numeral
import QuorumVault.Settings.Basic

/-!
# Settings that are looked up

What settings come of texts that are looked up (`Settings.ofLookup_exact`).  Every setting has the
value that its own text denotes (`Setting.Reads`), or its standard value if there is no text, and
then the settings have to be allowed together (`Settings.IsAllowed`).  If they are refused, then for
the first of the steps in `Settings.Step.order` that fails.  Nothing else that can be looked up has
an influence, and neither has white space around a text, the endpoint apart.
-/

namespace QuorumVault

/-! ### The texts of settings -/

/-- The names of a derivation, in small letters. -/
def Derivation.names : Derivation → List String
  | .sha256 => ["sha256", "sha-256"]
  | .sha512_256 => ["sha512-256", "sha512_256"]
  | .hkdfSha256 => ["hkdf-sha256", "hkdf"]

theorem Derivation.mem_aliases_iff {name : String} {d : Derivation} :
    (name, d) ∈ aliases ↔ name ∈ d.names := by
  cases d <;> simp [aliases, names]

/-- The names of an algorithm, in small letters. -/
def CipherSuite.names : CipherSuite → List String
  | .aes256Gcm => ["aes-256-gcm", "aes256gcm"]

theorem CipherSuite.mem_aliases_iff {name : String} {suite : CipherSuite} :
    (name, suite) ∈ aliases ↔ name ∈ suite.names := by
  cases suite
  simp [aliases, names]

namespace Setting

/-- What a setting sets. -/
abbrev Value : Setting → Type
  | .shareCount | .threshold => UInt8
  | .derivation => Derivation
  | .suite => CipherSuite
  | .endpoint => Endpoint
  | .auditCapacity | .validatedCapacity | .rejectedCapacity => ℕ
  | .validatedTtl | .rejectedTtl => Duration
  | .maxAge => Option Duration

/-- A numeral up to `max`, with white space around it. -/
def IsNumeral (max : ℕ) (text : String) (n : ℕ) : Prop :=
  ∃ core, Text.IsCore core text ∧ Numeral.Denotes core n ∧ n ≤ max

/-- A numeral of 64 bits, with white space around it. -/
def IsWord (text : String) (n : ℕ) : Prop := IsNumeral 0xffffffffffffffff text n

/-- One of the names, in letters of either case, with white space around it. -/
def IsName {α : Type} (names : List (String × α)) (text : String) (a : α) : Prop :=
  ∃ core, Text.IsCore core text ∧ (Text.lowered (String.ofList core), a) ∈ names

/-- The value that a text denotes for a setting. -/
def Reads : (s : Setting) → String → s.Value → Prop
  | .shareCount, text, n | .threshold, text, n => IsNumeral 255 text n.toNat
  | .derivation, text, d => IsName Derivation.aliases text d
  | .suite, text, c => IsName CipherSuite.aliases text c
  | .endpoint, text, e => Endpoint.ofText? text = .ok e
  | .auditCapacity, text, n | .validatedCapacity, text, n | .rejectedCapacity, text, n =>
    IsWord text n
  | .validatedTtl, text, ttl | .rejectedTtl, text, ttl =>
    ∃ n, IsWord text n ∧ ttl = .ofSeconds n
  | .maxAge, text, age => ∃ n, IsWord text n ∧ age = some (.ofSeconds n)

/-- What names a derivation is one of its names, with white space around it and with letters of
either case. -/
theorem reads_derivation_iff {text : String} {d : Derivation} :
    Reads .derivation text d ↔
      ∃ core, Text.IsCore core text ∧ Text.lowered (String.ofList core) ∈ d.names := by
  simp only [Reads, IsName, Derivation.mem_aliases_iff]

theorem reads_suite_iff {text : String} {suite : CipherSuite} :
    Reads .suite text suite ↔
      ∃ core, Text.IsCore core text ∧ Text.lowered (String.ofList core) ∈ suite.names := by
  simp only [Reads, IsName, CipherSuite.mem_aliases_iff]

/-- What a setting is given as. -/
inductive Form where
  | numeral (max : ℕ)
  /-- One of some names; with another one there is a complaint. -/
  | name (complaint : String) (names : List String)
  | endpoint

def form : Setting → Form
  | .shareCount | .threshold => .numeral 255
  | .derivation => .name "unsupported key derivation: " (Derivation.aliases.map Prod.fst)
  | .suite => .name "unsupported symmetric algorithm: " (CipherSuite.aliases.map Prod.fst)
  | .endpoint => .endpoint
  | .auditCapacity | .validatedCapacity | .rejectedCapacity | .validatedTtl | .rejectedTtl
  | .maxAge => .numeral 0xffffffffffffffff

/-- Why a text is refused for a setting. -/
def Refuses (s : Setting) (text : String) (fault : SettingsFault) : Prop :=
  match s.form with
  | .numeral max => ∃ core cause, Text.IsCore core text ∧ Numeral.Refused max core cause ∧
    fault = .value s cause.message
  | .name complaint names => ∃ core, Text.IsCore core text ∧
    Text.lowered (String.ofList core) ∉ names ∧
      fault = .value s (complaint ++ Text.lowered (String.ofList core))
  | .endpoint => ∃ reason, Endpoint.ofChars? text.toList = .error reason ∧
    fault = .endpoint text reason

end Setting

namespace Settings

variable {lookup lookup' : Lookup} {s : Setting} {text : String} {fault : SettingsFault}

/-- The value of a setting. -/
def get (c : Settings) : (s : Setting) → s.Value
  | .shareCount => c.shareCount
  | .threshold => c.threshold
  | .derivation => c.derivation
  | .suite => c.suite
  | .endpoint => c.endpoint
  | .auditCapacity => c.auditCapacity
  | .validatedCapacity => c.tokens.validatedCapacity
  | .validatedTtl => c.tokens.validatedTtl
  | .rejectedCapacity => c.tokens.rejectedCapacity
  | .rejectedTtl => c.tokens.rejectedTtl
  | .maxAge => c.tokens.maxAge

/-- The value of a setting is the one that its text denotes, or the standard one if it has none. -/
def Given (lookup : Lookup) (s : Setting) (value : s.Value) : Prop :=
  match lookup s.name with
  | none => value = standard.get s
  | some text => s.Reads text value

/-- Settings that go together. -/
structure IsAllowed (c : Settings) : Prop where
  two_le_threshold : 2 ≤ c.threshold.toNat
  threshold_le_shareCount : c.threshold.toNat ≤ c.shareCount.toNat
  shareCount_le : c.shareCount.toNat ≤ 255
  validatedCapacity_ne_zero : c.tokens.validatedCapacity ≠ 0
  rejectedCapacity_ne_zero : c.tokens.rejectedCapacity ≠ 0

/-! ### Steps -/

/-- What is done with settings that are looked up. -/
inductive Step where
  | read (s : Setting)
  /-- The threshold is compared with the number of shares. -/
  | compareThreshold
  | checkValidatedCapacity
  | checkRejectedCapacity

/-- The steps, in the order in which they are done. -/
def Step.order : List Step :=
  [.read .maxAge, .read .shareCount, .read .threshold, .read .derivation, .read .suite,
    .read .validatedCapacity, .read .validatedTtl, .read .rejectedCapacity, .read .rejectedTtl,
    .read .endpoint, .read .auditCapacity, .compareThreshold, .checkValidatedCapacity,
    .checkRejectedCapacity]

/-- A step fails. -/
inductive Fails (lookup : Lookup) : Step → SettingsFault → Prop where
  | read {s : Setting} {text : String} {fault : SettingsFault} (htext : lookup s.name = some text)
      (h : s.Refuses text fault) : Fails lookup (.read s) fault
  | compareThreshold {threshold shareCount : UInt8} (ht : Given lookup .threshold threshold)
      (hn : Given lookup .shareCount shareCount)
      (h : threshold.toNat < 2 ∨ shareCount.toNat < threshold.toNat) :
      Fails lookup .compareThreshold (.threshold threshold shareCount)
  | checkValidatedCapacity (h : Given lookup .validatedCapacity (0 : ℕ)) :
      Fails lookup .checkValidatedCapacity
        (.value .validatedCapacity "must be greater than zero")
  | checkRejectedCapacity (h : Given lookup .rejectedCapacity (0 : ℕ)) :
      Fails lookup .checkRejectedCapacity (.value .rejectedCapacity "must be greater than zero")

/-- The fault is that of the first of the steps that fails. -/
def FirstFails (lookup : Lookup) (steps : List Step) (fault : SettingsFault) : Prop :=
  ∃ before step after, steps = before ++ step :: after ∧
    (∀ earlier ∈ before, ∀ other, ¬Fails lookup earlier other) ∧ Fails lookup step fault

/-! ### Parsers -/

theorem map_eq_ok_iff {ε α β : Type} {x : Except ε α} {f : α → β} {b : β} :
    x.map f = .ok b ↔ ∃ a, x = .ok a ∧ f a = b := by
  cases x with
  | error e => simp [Except.map]
  | ok a => simp [Except.map]

theorem map_eq_error_iff {ε α β : Type} {x : Except ε α} {f : α → β} {e : ε} :
    x.map f = .error e ↔ x = .error e := by
  cases x with
  | error e' => simp [Except.map]
  | ok a => simp [Except.map]

theorem numeral_eq_ok_iff {max n : ℕ} :
    numeral max (Text.trimmed text) = .ok n ↔ Setting.IsNumeral max text n := by
  have hread : numeral max (Text.trimmed text) = .ok n ↔
      Numeral.read max (Text.trim text.toList) = .ok n := by
    rw [numeral, Text.trimmed, String.toList_ofList]
    cases Numeral.read max (Text.trim text.toList) with
    | error cause => simp
    | ok m => simp
  simp only [hread, Numeral.read_eq_ok_iff, Setting.IsNumeral, Text.isCore_iff, exists_eq_left]

theorem numeral_eq_error_iff {max : ℕ} {reason : String} :
    numeral max (Text.trimmed text) = .error reason ↔ ∃ core cause, Text.IsCore core text ∧
      Numeral.Refused max core cause ∧ reason = cause.message := by
  have hread : numeral max (Text.trimmed text) = .error reason ↔ ∃ cause,
      Numeral.read max (Text.trim text.toList) = .error cause ∧ reason = cause.message := by
    rw [numeral, Text.trimmed, String.toList_ofList]
    cases Numeral.read max (Text.trim text.toList) with
    | error cause => simp [eq_comm]
    | ok m => simp
  simp only [hread, Numeral.read_eq_error_iff, Text.isCore_iff, exists_and_left, exists_eq_left]

theorem byte_eq_ok_iff {n : UInt8} :
    byte (Text.trimmed text) = .ok n ↔ Setting.IsNumeral 255 text n.toNat := by
  rw [byte, map_eq_ok_iff]
  simp only [numeral_eq_ok_iff]
  constructor
  · rintro ⟨m, hm, rfl⟩
    obtain ⟨-, -, -, hle⟩ := id hm
    rwa [UInt8.toNat_ofNat_of_lt' (Nat.lt_succ_of_le hle)]
  · intro h
    exact ⟨n.toNat, h, UInt8.ofNat_toNat⟩

theorem word_eq_ok_iff {n : ℕ} : word (Text.trimmed text) = .ok n ↔ Setting.IsWord text n := by
  rw [word, Setting.IsWord, numeral_eq_ok_iff]

theorem seconds_eq_ok_iff {d : Duration} :
    seconds (Text.trimmed text) = .ok d ↔ ∃ n, Setting.IsWord text n ∧ d = .ofSeconds n := by
  rw [seconds, map_eq_ok_iff]
  simp only [word_eq_ok_iff, eq_comm (a := d)]

/-- A name is looked up among names that differ. -/
theorem lookup_name {α : Type} {names : List (String × α)} {complaint : String}
    {find : String → Except String α} (hnodup : (names.map Prod.fst).Nodup)
    (hsome : ∀ {t a}, names.lookup (Text.lowered t) = some a → find t = .ok a)
    (hnone : ∀ {t}, names.lookup (Text.lowered t) = none →
      find t = .error (complaint ++ Text.lowered t)) :
    (∀ a, find (Text.trimmed text) = .ok a ↔ Setting.IsName names text a) ∧
      ∀ reason, find (Text.trimmed text) = .error reason ↔ ∃ core, Text.IsCore core text ∧
        Text.lowered (String.ofList core) ∉ names.map Prod.fst ∧
          reason = complaint ++ Text.lowered (String.ofList core) := by
  simp only [Setting.IsName, Text.isCore_iff, exists_eq_left, ← lookup_eq_some_iff_mem hnodup]
  rw [Text.trimmed]
  cases hfound : names.lookup (Text.lowered (String.ofList (Text.trim text.toList))) with
  | none =>
    have hnot : Text.lowered (String.ofList (Text.trim text.toList)) ∉ names.map Prod.fst := by
      intro hmem
      obtain ⟨⟨name, a⟩, hp, rfl⟩ := List.mem_map.mp hmem
      rw [(lookup_eq_some_iff_mem hnodup).mpr hp] at hfound
      cases hfound
    simp [hnone hfound, hnot, eq_comm]
  | some a =>
    have hmem : Text.lowered (String.ofList (Text.trim text.toList)) ∈ names.map Prod.fst :=
      List.mem_map.mpr ⟨(_, a), (lookup_eq_some_iff_mem hnodup).mp hfound, rfl⟩
    simp [hsome hfound, hmem]

theorem lookup_derivation (text : String) :
    (∀ d, Derivation.ofText? (Text.trimmed text) = .ok d ↔
        Setting.IsName Derivation.aliases text d) ∧
      ∀ reason, Derivation.ofText? (Text.trimmed text) = .error reason ↔
        ∃ core, Text.IsCore core text ∧
          Text.lowered (String.ofList core) ∉ Derivation.aliases.map Prod.fst ∧
            reason = "unsupported key derivation: " ++ Text.lowered (String.ofList core) := by
  refine lookup_name (by decide) (fun h => ?_) (fun h => ?_)
  · simp only [Derivation.ofText?, h]
  · simp only [Derivation.ofText?, h]
    rfl

theorem lookup_suite (text : String) :
    (∀ suite, CipherSuite.ofText? (Text.trimmed text) = .ok suite ↔
        Setting.IsName CipherSuite.aliases text suite) ∧
      ∀ reason, CipherSuite.ofText? (Text.trimmed text) = .error reason ↔
        ∃ core, Text.IsCore core text ∧
          Text.lowered (String.ofList core) ∉ CipherSuite.aliases.map Prod.fst ∧
            reason = "unsupported symmetric algorithm: " ++ Text.lowered (String.ofList core) := by
  refine lookup_name (by decide) (fun h => ?_) (fun h => ?_)
  · simp only [CipherSuite.ofText?, h]
  · simp only [CipherSuite.ofText?, h]
    rfl

/-- How the text of a setting is read, without the white space around it. -/
def parse : (s : Setting) → String → Except String s.Value
  | .shareCount | .threshold => byte
  | .derivation => Derivation.ofText?
  | .suite => CipherSuite.ofText?
  | .endpoint => fun text => Endpoint.ofChars? text.toList
  | .auditCapacity | .validatedCapacity | .rejectedCapacity => word
  | .validatedTtl | .rejectedTtl => seconds
  | .maxAge => fun text => (seconds text).map some

theorem parse_eq_ok_iff (hs : s ≠ .endpoint) {value : s.Value} :
    parse s (Text.trimmed text) = .ok value ↔ s.Reads text value := by
  cases s with
  | shareCount | threshold => simp only [parse, Setting.Reads, byte_eq_ok_iff]
  | derivation => exact (lookup_derivation text).1 value
  | suite => exact (lookup_suite text).1 value
  | endpoint => exact absurd rfl hs
  | auditCapacity | validatedCapacity | rejectedCapacity =>
    simp only [parse, Setting.Reads, word_eq_ok_iff]
  | validatedTtl | rejectedTtl => simp only [parse, Setting.Reads, seconds_eq_ok_iff]
  | maxAge =>
    simp only [parse, map_eq_ok_iff, seconds_eq_ok_iff, Setting.Reads]
    constructor
    · rintro ⟨d, ⟨n, hn, rfl⟩, rfl⟩
      exact ⟨n, hn, rfl⟩
    · rintro ⟨n, hn, rfl⟩
      exact ⟨_, ⟨n, hn, rfl⟩, rfl⟩

/-- What is wrong with the text of a setting that is a numeral. -/
theorem parse_eq_error_iff_of_numeral {max : ℕ} (hs : s.form = .numeral max) {reason : String} :
    parse s (Text.trimmed text) = .error reason ↔
      numeral max (Text.trimmed text) = .error reason := by
  cases s with
  | derivation | suite | endpoint => cases hs
  | shareCount | threshold =>
    cases hs
    simp only [parse, byte, map_eq_error_iff]
  | auditCapacity | validatedCapacity | rejectedCapacity =>
    cases hs
    simp only [parse, word]
  | validatedTtl | rejectedTtl | maxAge =>
    cases hs
    simp only [parse, seconds, word, map_eq_error_iff]

theorem exists_parse_eq_error_iff (hs : s ≠ .endpoint) :
    (∃ reason, parse s (Text.trimmed text) = .error reason ∧ fault = .value s reason) ↔
      s.Refuses text fault := by
  unfold Setting.Refuses
  cases hform : s.form with
  | numeral max =>
    simp only [parse_eq_error_iff_of_numeral hform, numeral_eq_error_iff]
    constructor
    · rintro ⟨_, ⟨core, cause, hcore, hrefused, rfl⟩, rfl⟩
      exact ⟨core, cause, hcore, hrefused, rfl⟩
    · rintro ⟨core, cause, hcore, hrefused, rfl⟩
      exact ⟨_, ⟨core, cause, hcore, hrefused, rfl⟩, rfl⟩
  | name complaint names =>
    have hname : ∀ reason, parse s (Text.trimmed text) = .error reason ↔ ∃ core,
        Text.IsCore core text ∧ Text.lowered (String.ofList core) ∉ names ∧
          reason = complaint ++ Text.lowered (String.ofList core) := by
      cases s with
      | derivation =>
        cases hform
        exact (lookup_derivation text).2
      | suite =>
        cases hform
        exact (lookup_suite text).2
      | _ => cases hform
    simp only [hname]
    constructor
    · rintro ⟨_, ⟨core, hcore, hnot, rfl⟩, rfl⟩
      exact ⟨core, hcore, hnot, rfl⟩
    · rintro ⟨core, hcore, hnot, rfl⟩
      exact ⟨_, ⟨core, hcore, hnot, rfl⟩, rfl⟩
  | endpoint =>
    cases s with
    | endpoint => exact absurd rfl hs
    | _ => cases hform

/-! ### Looking one setting up -/

theorem readOr_eq_ok_iff {α : Type} {standard a : α} {parse : String → Except String α} :
    readOr standard lookup s parse = .ok a ↔ match lookup s.name with
      | none => a = standard
      | some text => parse (Text.trimmed text) = .ok a := by
  unfold readOr Settings.read
  cases lookup s.name with
  | none => simp [eq_comm]
  | some text =>
    dsimp only
    cases parse (Text.trimmed text) with
    | error reason => simp
    | ok b => simp

theorem readOr_eq_error_iff {α : Type} {standard : α} {parse : String → Except String α} :
    readOr standard lookup s parse = .error fault ↔ ∃ text, lookup s.name = some text ∧
      ∃ reason, parse (Text.trimmed text) = .error reason ∧ fault = .value s reason := by
  unfold readOr Settings.read
  cases lookup s.name with
  | none => simp
  | some text =>
    cases hparse : parse (Text.trimmed text) with
    | error reason => simp [hparse, eq_comm]
    | ok b => simp [hparse]

theorem readEndpoint_eq_ok_iff {e : Endpoint} :
    readEndpoint lookup = .ok e ↔ Given lookup .endpoint e := by
  unfold readEndpoint Given
  cases lookup Setting.endpoint.name with
  | none => exact ⟨fun h => (Except.ok.inj h).symm, fun h => congrArg Except.ok h.symm⟩
  | some text => exact Iff.rfl

theorem readEndpoint_eq_error_iff :
    readEndpoint lookup = .error fault ↔ ∃ text, lookup Setting.endpoint.name = some text ∧
      Setting.Refuses .endpoint text fault := by
  unfold readEndpoint
  cases lookup Setting.endpoint.name with
  | none => simp
  | some text =>
    simp only [Option.some.injEq, exists_eq_left', Endpoint.ofText?, Setting.Refuses, Setting.form]
    cases Endpoint.ofChars? text.toList with
    | error reason => simp [eq_comm]
    | ok e => simp

/-- The value of one setting, or why it is refused. -/
def take (lookup : Lookup) (s : Setting) : Except SettingsFault s.Value :=
  match s with
  | .endpoint => readEndpoint lookup
  | s => readOr (standard.get s) lookup s (parse s)

theorem take_of_ne (hs : s ≠ .endpoint) :
    take lookup s = readOr (standard.get s) lookup s (parse s) := by
  cases s with
  | endpoint => exact absurd rfl hs
  | _ => rfl

theorem take_eq_ok_iff {value : s.Value} : take lookup s = .ok value ↔ Given lookup s value := by
  by_cases hs : s = .endpoint
  · subst hs
    exact readEndpoint_eq_ok_iff
  · rw [take_of_ne hs, readOr_eq_ok_iff, Given]
    cases lookup s.name with
    | none => exact Iff.rfl
    | some text => exact parse_eq_ok_iff hs

theorem take_eq_error_iff : take lookup s = .error fault ↔ Fails lookup (.read s) fault := by
  have hfails : Fails lookup (.read s) fault ↔
      ∃ text, lookup s.name = some text ∧ s.Refuses text fault := by
    constructor
    · rintro ⟨htext, h⟩
      exact ⟨_, htext, h⟩
    · rintro ⟨text, htext, h⟩
      exact .read htext h
  rw [hfails]
  by_cases hs : s = .endpoint
  · subst hs
    exact readEndpoint_eq_error_iff
  · rw [take_of_ne hs, readOr_eq_error_iff]
    simp only [exists_parse_eq_error_iff hs]

/-- A setting has one value. -/
theorem Given.unique {value value' : s.Value} (h : Given lookup s value)
    (h' : Given lookup s value') : value = value' :=
  Except.ok.inj ((take_eq_ok_iff.mpr h).symm.trans (take_eq_ok_iff.mpr h'))

/-! ### All settings -/

theorem readAll_eq (lookup : Lookup) :
    readAll lookup = (do
      let maxAge ← take lookup .maxAge
      let shareCount ← take lookup .shareCount
      let threshold ← take lookup .threshold
      let derivation ← take lookup .derivation
      let suite ← take lookup .suite
      let validatedCapacity ← take lookup .validatedCapacity
      let validatedTtl ← take lookup .validatedTtl
      let rejectedCapacity ← take lookup .rejectedCapacity
      let rejectedTtl ← take lookup .rejectedTtl
      let endpoint ← take lookup .endpoint
      let auditCapacity ← take lookup .auditCapacity
      return ⟨shareCount, threshold, derivation, suite,
        ⟨validatedCapacity, validatedTtl, rejectedCapacity, rejectedTtl, maxAge⟩, endpoint,
        auditCapacity⟩) := by
  -- the standard age is that there is none, and so an age is read without one
  have hage : Settings.read lookup .maxAge seconds = take lookup .maxAge := by
    rw [take_of_ne (by decide), readOr, Settings.read, Settings.read]
    cases lookup Setting.maxAge.name with
    | none => rfl
    | some text =>
      dsimp only [parse]
      cases seconds (Text.trimmed text) with
      | error reason => rfl
      | ok age => rfl
  rw [readAll, hage]
  rfl

theorem bind_eq_ok_iff {ε α β : Type} {x : Except ε α} {f : α → Except ε β} {b : β} :
    x >>= f = .ok b ↔ ∃ a, x = .ok a ∧ f a = .ok b := by
  cases x with
  | error e => simp [bind, Except.bind]
  | ok a => simp [bind, Except.bind]

theorem readAll_eq_ok_iff {c : Settings} :
    readAll lookup = .ok c ↔ ∀ s, Given lookup s (c.get s) := by
  rw [readAll_eq]
  simp only [bind_eq_ok_iff]
  constructor
  · rintro ⟨maxAge, hage, shareCount, hcount, threshold, hthreshold, derivation, hderivation,
      suite, hsuite, validatedCapacity, hvalidated, validatedTtl, hvalidatedTtl,
      rejectedCapacity, hrejected, rejectedTtl, hrejectedTtl, endpoint, hendpoint, auditCapacity,
      haudit, hc⟩
    obtain rfl := Except.ok.inj hc
    intro s
    apply take_eq_ok_iff.mp
    cases s <;> assumption
  · intro h
    have htake (s : Setting) : take lookup s = .ok (c.get s) := take_eq_ok_iff.mpr (h s)
    exact ⟨_, htake .maxAge, _, htake .shareCount, _, htake .threshold, _, htake .derivation, _,
      htake .suite, _, htake .validatedCapacity, _, htake .validatedTtl, _,
      htake .rejectedCapacity, _, htake .rejectedTtl, _, htake .endpoint, _,
      htake .auditCapacity, rfl⟩

/-! ### Settings that go together -/

theorem check_eq_ok_iff {c : Settings} : c.check = .ok () ↔ c.IsAllowed := by
  have hbytes : ¬(c.threshold < 2 ∨ c.shareCount < c.threshold) ↔
      2 ≤ c.threshold.toNat ∧ c.threshold.toNat ≤ c.shareCount.toNat := by
    rw [not_or, UInt8.not_lt, UInt8.not_lt, UInt8.le_iff_toNat_le, UInt8.le_iff_toNat_le]
    rfl
  unfold check
  constructor
  · intro h
    split_ifs at h with hthreshold hvalidated hrejected
    obtain ⟨htwo, hle⟩ := hbytes.mp hthreshold
    exact ⟨htwo, hle, Nat.le_of_lt_succ c.shareCount.toNat_lt, hvalidated, hrejected⟩
  · intro h
    rw [if_neg (hbytes.mpr ⟨h.two_le_threshold, h.threshold_le_shareCount⟩),
      if_neg h.validatedCapacity_ne_zero, if_neg h.rejectedCapacity_ne_zero]

/-! ### The first fault -/

theorem not_firstFails_nil : ¬FirstFails lookup [] fault := by
  rintro ⟨before, step, after, h, -⟩
  exact absurd h.symm (List.append_ne_nil_of_right_ne_nil _ (List.cons_ne_nil _ _))

theorem firstFails_cons {step : Step} {steps : List Step} :
    FirstFails lookup (step :: steps) fault ↔ Fails lookup step fault ∨
      (∀ other, ¬Fails lookup step other) ∧ FirstFails lookup steps fault := by
  constructor
  · rintro ⟨before, failing, after, h, hbefore, hfails⟩
    cases before with
    | nil =>
      obtain ⟨rfl, -⟩ := List.cons.inj h
      exact .inl hfails
    | cons first before =>
      obtain ⟨rfl, rfl⟩ := List.cons.inj h
      obtain ⟨hfirst, hbefore⟩ := List.forall_mem_cons.mp hbefore
      exact .inr ⟨hfirst, before, failing, after, rfl, hbefore, hfails⟩
  · rintro (hfails | ⟨hstep, before, failing, after, rfl, hbefore, hfails⟩)
    · exact ⟨[], step, steps, rfl, nofun, hfails⟩
    · exact ⟨step :: before, failing, after, rfl, List.forall_mem_cons.mpr ⟨hstep, hbefore⟩, hfails⟩

/-- A step that fails decides the fault, and one that does not leaves it to those that follow. -/
theorem bind_eq_error_iff {α β : Type} {x : Except SettingsFault α}
    {f : α → Except SettingsFault β} {step : Step} {steps : List Step}
    (hx : ∀ other, x = .error other ↔ Fails lookup step other)
    (hf : ∀ a, x = .ok a → (f a = .error fault ↔ FirstFails lookup steps fault)) :
    x >>= f = .error fault ↔ FirstFails lookup (step :: steps) fault := by
  rw [firstFails_cons]
  simp only [← hx]
  cases x with
  | error other => simp [bind, Except.bind]
  | ok a => simpa [bind, Except.bind] using hf a rfl

theorem check_eq_error_iff {c : Settings} (hc : ∀ s, Given lookup s (c.get s)) :
    c.check = .error fault ↔ FirstFails lookup
      [.compareThreshold, .checkValidatedCapacity, .checkRejectedCapacity] fault := by
  have hthreshold (other : SettingsFault) : Fails lookup .compareThreshold other ↔
      (c.threshold < 2 ∨ c.shareCount < c.threshold) ∧
        other = .threshold c.threshold c.shareCount := by
    simp only [UInt8.lt_iff_toNat_lt]
    constructor
    · intro hfails
      cases hfails with
      | compareThreshold ht hn h =>
        obtain rfl := (hc .threshold).unique ht
        obtain rfl := (hc .shareCount).unique hn
        exact ⟨h, rfl⟩
    · rintro ⟨h, rfl⟩
      exact .compareThreshold (hc .threshold) (hc .shareCount) h
  have hvalidated (other : SettingsFault) : Fails lookup .checkValidatedCapacity other ↔
      c.tokens.validatedCapacity = 0 ∧
        other = .value .validatedCapacity "must be greater than zero" := by
    constructor
    · intro hfails
      cases hfails with
      | checkValidatedCapacity h => exact ⟨(hc .validatedCapacity).unique h, rfl⟩
    · rintro ⟨h, rfl⟩
      exact .checkValidatedCapacity (h ▸ hc .validatedCapacity)
  have hrejected (other : SettingsFault) : Fails lookup .checkRejectedCapacity other ↔
      c.tokens.rejectedCapacity = 0 ∧
        other = .value .rejectedCapacity "must be greater than zero" := by
    constructor
    · intro hfails
      cases hfails with
      | checkRejectedCapacity h => exact ⟨(hc .rejectedCapacity).unique h, rfl⟩
    · rintro ⟨h, rfl⟩
      exact .checkRejectedCapacity (h ▸ hc .rejectedCapacity)
  simp only [firstFails_cons, not_firstFails_nil, hthreshold, hvalidated, hrejected]
  unfold check
  split_ifs with h₁ h₂ h₃
  all_goals simp [*, eq_comm]

theorem ofLookup_eq_error_iff :
    ofLookup lookup = .error fault ↔ FirstFails lookup Step.order fault := by
  unfold ofLookup Step.order
  rw [readAll_eq]
  simp only [bind_assoc, pure_bind]
  refine bind_eq_error_iff (fun _ => take_eq_error_iff) fun maxAge hage => ?_
  refine bind_eq_error_iff (fun _ => take_eq_error_iff) fun shareCount hcount => ?_
  refine bind_eq_error_iff (fun _ => take_eq_error_iff) fun threshold hthreshold => ?_
  refine bind_eq_error_iff (fun _ => take_eq_error_iff) fun derivation hderivation => ?_
  refine bind_eq_error_iff (fun _ => take_eq_error_iff) fun suite hsuite => ?_
  refine bind_eq_error_iff (fun _ => take_eq_error_iff) fun validatedCapacity hvalidated => ?_
  refine bind_eq_error_iff (fun _ => take_eq_error_iff) fun validatedTtl hvalidatedTtl => ?_
  refine bind_eq_error_iff (fun _ => take_eq_error_iff) fun rejectedCapacity hrejected => ?_
  refine bind_eq_error_iff (fun _ => take_eq_error_iff) fun rejectedTtl hrejectedTtl => ?_
  refine bind_eq_error_iff (fun _ => take_eq_error_iff) fun endpoint hendpoint => ?_
  refine bind_eq_error_iff (fun _ => take_eq_error_iff) fun auditCapacity haudit => ?_
  -- all settings have their values now, and what is left are the steps of the check
  rw [← check_eq_error_iff (c := ⟨shareCount, threshold, derivation, suite,
    ⟨validatedCapacity, validatedTtl, rejectedCapacity, rejectedTtl, maxAge⟩, endpoint,
      auditCapacity⟩)]
  · cases check _ with
    | error other => simp [bind, Except.bind]
    | ok checked => simp [bind, Except.bind, pure, Except.pure]
  · intro s
    rw [← take_eq_ok_iff]
    cases s <;> assumption

theorem ofLookup_eq_ok_iff {c : Settings} :
    ofLookup lookup = .ok c ↔ (∀ s, Given lookup s (c.get s)) ∧ c.IsAllowed := by
  unfold ofLookup
  simp only [bind_eq_ok_iff, readAll_eq_ok_iff]
  constructor
  · rintro ⟨c', hc, ⟨⟩, hcheck, h⟩
    obtain rfl := Except.ok.inj h
    exact ⟨hc, check_eq_ok_iff.mp hcheck⟩
  · rintro ⟨hc, hallowed⟩
    exact ⟨c, hc, (), check_eq_ok_iff.mpr hallowed, rfl⟩

/-! ### What has no influence -/

/-- What is looked up for a setting means the same. -/
inductive Alike (s : Setting) : Option String → Option String → Prop where
  | same (found : Option String) : Alike s found found
  /-- There is other white space around the text. -/
  | padded {core : List Char} {text text' : String} (hs : s ≠ .endpoint)
      (h : Text.Pads core text) (h' : Text.Pads core text') : Alike s (some text) (some text')

theorem Alike.of_eq {found found' : Option String} (h : found = found') : Alike s found found' :=
  h ▸ .same found

theorem take_of_alike (h : Alike s (lookup s.name) (lookup' s.name)) :
    take lookup s = take lookup' s := by
  by_cases hs : s = .endpoint
  · subst hs
    have hsame : lookup Setting.endpoint.name = lookup' Setting.endpoint.name := by
      generalize lookup Setting.endpoint.name = found at h
      generalize lookup' Setting.endpoint.name = found' at h
      cases h with
      | same => rfl
      | padded hs => exact absurd rfl hs
    rw [take, take, readEndpoint, readEndpoint, hsame]
  · rw [take_of_ne hs, take_of_ne hs, readOr, readOr, Settings.read, Settings.read]
    generalize lookup s.name = found at h
    generalize lookup' s.name = found' at h
    cases h with
    | same => rfl
    | padded hs h h' =>
      have htrimmed := congrArg String.ofList ((Text.trim_of_pads h).trans
        (Text.trim_of_pads h').symm)
      simp only [Text.trimmed, htrimmed]

theorem ofLookup_of_alike (h : ∀ s : Setting, Alike s (lookup s.name) (lookup' s.name)) :
    ofLookup lookup = ofLookup lookup' := by
  have htake (s : Setting) : take lookup s = take lookup' s := take_of_alike (h s)
  simp only [ofLookup, readAll_eq, htake]

/-! ### Looking all settings up -/

theorem exists_reason_of_fails (h : Fails lookup (.read s) fault) (hs : s ≠ .endpoint) :
    ∃ reason, fault = .value s reason := by
  cases h with
  | read htext hrefuses =>
    obtain ⟨reason, -, hfault⟩ := (exists_parse_eq_error_iff hs).mpr hrefuses
    exact ⟨reason, hfault⟩

/-- **Looking settings up.**  Settings come of what is looked up iff each of them has the value that
its text denotes, or its standard value where there is no text, and they are allowed together; and
then they pass their check.  Otherwise the fault is that of the first step that fails, and the fault
of a setting that cannot be read names that setting.  What is looked up under other names has no
influence, and neither has white space around the text of any setting but the endpoint.  Algorithms
are called by the names of `Derivation.names` and `CipherSuite.names`, and by no others. -/
theorem ofLookup_exact :
    (∀ (lookup : Lookup) (c : Settings), ofLookup lookup = .ok c ↔
      (∀ s, Given lookup s (c.get s)) ∧ c.IsAllowed) ∧
    (∀ (lookup : Lookup) (c : Settings), ofLookup lookup = .ok c → c.check = .ok ()) ∧
    (∀ (lookup : Lookup) (fault : SettingsFault), ofLookup lookup = .error fault ↔
      FirstFails lookup Step.order fault) ∧
    (∀ (lookup : Lookup) (s : Setting) (fault : SettingsFault), s ≠ .endpoint →
      Fails lookup (.read s) fault → ∃ reason, fault = .value s reason ∧
        fault.message = s!"Invalid value for {s.name}: {reason}") ∧
    (∀ lookup lookup' : Lookup, (∀ s, Alike s (lookup s.name) (lookup' s.name)) →
      ofLookup lookup = ofLookup lookup') ∧
    (∀ (text : String) (d : Derivation), Setting.Reads .derivation text d ↔
      ∃ core, Text.IsCore core text ∧ Text.lowered (String.ofList core) ∈ d.names) ∧
    ∀ (text : String) (suite : CipherSuite), Setting.Reads .suite text suite ↔
      ∃ core, Text.IsCore core text ∧ Text.lowered (String.ofList core) ∈ suite.names := by
  refine ⟨fun lookup c => ofLookup_eq_ok_iff, ?_, fun lookup fault => ofLookup_eq_error_iff, ?_,
    fun lookup lookup' => ofLookup_of_alike, fun text d => Setting.reads_derivation_iff,
    fun text suite => Setting.reads_suite_iff⟩
  · intro lookup c h
    exact check_eq_ok_iff.mpr (ofLookup_eq_ok_iff.mp h).2
  · intro lookup s fault hs h
    obtain ⟨reason, rfl⟩ := exists_reason_of_fails h hs
    exact ⟨reason, rfl, rfl⟩

/-- A lookup among bindings. -/
def bound (bindings : List (String × String)) : Lookup := fun name => bindings.lookup name

/-- White space and a name that is not known change nothing; of two faults the one of the age is
reported, although the number of shares is bound first. -/
theorem ofLookup_exact_of_padded :
    (∃ c, ofLookup (bound [("ENCLAVE_SHARE_COUNT", "5"), ("ENCLAVE_KEY_DERIVATION", "HKDF"),
        ("ENCLAVE_ENDPOINT", "vsock://+3:05000")]) = .ok c ∧ c.check = .ok () ∧
      c.shareCount = 5 ∧ c.derivation = .hkdfSha256 ∧ c.endpoint = .machine 3 5000 ∧
      ofLookup (bound [("ENCLAVE_SHARE_COUNT", " 5\t"), ("ENCLAVE_KEY_DERIVATION", "\nHKDF "),
        ("ENCLAVE_ENDPOINT", "vsock://+3:05000"), ("PATH", "/bin")]) = .ok c) ∧
    ∃ reason, ofLookup (bound [("ENCLAVE_SHARE_COUNT", "256"), ("TOKEN_MAX_AGE_SECS", "-1")]) =
      .error (.value .maxAge reason) := by
  obtain ⟨-, hcheck, herror, -, halike, -⟩ := ofLookup_exact
  have hc : ofLookup (bound [("ENCLAVE_SHARE_COUNT", "5"), ("ENCLAVE_KEY_DERIVATION", "HKDF"),
      ("ENCLAVE_ENDPOINT", "vsock://+3:05000")]) = .ok { standard with
        shareCount := 5, derivation := .hkdfSha256, endpoint := .machine 3 5000 } := by
    decide +kernel
  refine ⟨⟨_, hc, hcheck _ _ hc, rfl, rfl, rfl, ?_⟩, ?_⟩
  · rw [← hc]
    apply halike
    intro s
    cases s with
    | shareCount =>
      have hcore : Text.Pads ['5'] "5" := Text.pads_toList "5"
      have hpadded : Text.Pads ['5'] " 5\t" :=
        ⟨[' '], ['\t'], by decide, by decide, by decide⟩
      exact .padded (by decide) hpadded hcore
    | derivation =>
      have hcore : Text.Pads "HKDF".toList "HKDF" := Text.pads_toList "HKDF"
      have hpadded : Text.Pads "HKDF".toList "\nHKDF " :=
        ⟨['\n'], [' '], by decide, by decide, by decide⟩
      exact .padded (by decide) hpadded hcore
    | _ => exact .of_eq (by decide)
  · have hcore : Text.IsCore ['-', '1'] "-1" := Text.isCore_iff.mpr (by decide)
    have hrefused : Numeral.Refused 0xffffffffffffffff ['-', '1'] .invalidDigit :=
      Numeral.read_eq_error_iff.mp (by decide)
    have hfails : Fails (bound [("ENCLAVE_SHARE_COUNT", "256"), ("TOKEN_MAX_AGE_SECS", "-1")])
        (.read .maxAge) (.value .maxAge Numeral.Fault.invalidDigit.message) :=
      .read (by decide) ⟨_, _, hcore, hrefused, rfl⟩
    exact ⟨_, (herror _ _).mpr ⟨[], _, _, rfl, nofun, hfails⟩⟩

end Settings

end QuorumVault
