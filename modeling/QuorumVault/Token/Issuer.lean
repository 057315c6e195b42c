import QuorumVault.Token.Format
import QuorumVault.Token.Handle
import QuorumVault.Token.TimedCache

/-!
# Issuing and validating tokens

An issuer makes tokens under the installed keys and validates tokens that are presented. It
remembers two kinds of verdicts for a while: payloads of tokens that it accepted, and tokens that it
refused. A remembered payload is served only while the age of its token is allowed.

Payloads are transformed into values of different types before they are remembered. The types are
indexed by `ι`, and a value is served only where its own type is asked for.

Every installation of keys has a number of its own, and a verdict is remembered only if the
installation under which it was reached is still in place. Installing or clearing keys forgets all
verdicts.
-/

namespace QuorumVault

/-- How an issuer remembers verdicts. -/
structure TokenPolicy where
  validatedCapacity : Nat
  validatedTtl : Duration
  rejectedCapacity : Nat
  rejectedTtl : Duration
  maxAge : Option Duration
deriving DecidableEq

namespace TokenPolicy

/-- A thousand tokens of either kind, ten days and half a minute, and no limit on age. -/
def standard : TokenPolicy := ⟨1000, .ofSeconds 864000, 1000, .ofSeconds 30, none⟩

/-- How long an accepted token is remembered at most: no longer than it may be old. -/
def cappedTtl (policy : TokenPolicy) : Duration :=
  match policy.maxAge with
  | some age => policy.validatedTtl.min age
  | none => policy.validatedTtl

end TokenPolicy

/-- Keys in use, with the number of their installation. -/
structure Installation where
  serial : Nat
  keys : TokenKeys
deriving DecidableEq

variable {ι : Type} {β : ι → Type}

/-- An accepted payload. -/
structure Verdict {ι : Type} (β : ι → Type) where
  /-- The type of the value, and the value. -/
  payload : Sigma β
  issuedAt : Timestamp

/-- Makes and validates tokens. -/
structure Issuer {ι : Type} (β : ι → Type) where
  maxAge : Option Duration
  installed : Option Installation
  installations : Nat
  validated : TimedCache (Octets 32) (Verdict β)
  rejected : TimedCache (Octets 32) Unit

namespace Issuer

def ofPolicy (policy : TokenPolicy) : Issuer β :=
  ⟨policy.maxAge, none, 0, .empty policy.validatedCapacity policy.cappedTtl,
    .empty policy.rejectedCapacity policy.rejectedTtl⟩

/-! ### Keys -/

/-- Installs keys and forgets all verdicts. -/
def installKeys (keys : TokenKeys) (issuer : Issuer β) : Issuer β :=
  { issuer with
    installed := some ⟨issuer.installations, keys⟩
    installations := issuer.installations + 1
    validated := issuer.validated.clear
    rejected := issuer.rejected.clear }

/-- Installs the keys that belong to a master key. -/
def install (master : SecretKey) (issuer : Issuer β) : Issuer β :=
  issuer.installKeys (TokenKeys.derive master)

/-- Removes the keys and forgets all verdicts. -/
def clear (issuer : Issuer β) : Issuer β :=
  { issuer with
    installed := none
    validated := issuer.validated.clear
    rejected := issuer.rejected.clear }

def isInstalled (issuer : Issuer β) : Bool := issuer.installed.isSome

/-- Whether an installation is still in place. -/
def isCurrent (serial : Nat) (issuer : Issuer β) : Bool :=
  match issuer.installed with
  | some i => i.serial = serial
  | none => false

/-! ### Issuing -/

/-- A token for a payload, if keys are installed. -/
def issue (payload : Bytes) (now : Timestamp) (issuer : Issuer β) :
    Drawing TokenFault (Option String) :=
  match issuer.installed with
  | none => return none
  | some i => do
    let text ← Token.encode i.keys payload now
    return some text

/-! ### Validating -/

/-- Remembers that a token was refused. -/
def reject (now : Clock) (h : TokenHandle) (issuer : Issuer β) : Issuer β :=
  { issuer with rejected := issuer.rejected.put now.running h.digest () }

/-- Remembers that a token was refused if the keys are still those under which it was. -/
def rejectUnder (serial : Nat) (now : Clock) (h : TokenHandle) (issuer : Issuer β) : Issuer β :=
  if issuer.isCurrent serial then issuer.reject now h else issuer

/-- The remembered payload of a token, unless the token has become too old; then it is remembered as
refused. -/
def remembered (now : Clock) (h : TokenHandle) (issuer : Issuer β) : Option (Sigma β) × Issuer β :=
  match issuer.validated.get now.running h.digest with
  | (none, cache) => (none, { issuer with validated := cache })
  | (some verdict, cache) =>
    match Token.checkAge verdict.issuedAt now.wall issuer.maxAge with
    | .ok () => (some verdict.payload, { issuer with validated := cache })
    | .error _ => (none, { issuer with validated := cache.erase h.digest }.reject now h)

def valid (now : Clock) (h : TokenHandle) (issuer : Issuer β) : Bool × Issuer β :=
  match issuer.installed with
  | none => (false, issuer)
  | some i =>
    if issuer.rejected.contains now.running h.digest then (false, issuer)
    else
      match issuer.remembered now h with
      | (some _, issuer) => (true, issuer)
      | (none, issuer) =>
        match Token.verify i.keys h.text now.wall issuer.maxAge with
        | .ok _ => (true, issuer)
        | .error _ => (false, issuer.rejectUnder i.serial now h)

/-- What is found out about a token before its payload is transformed. -/
inductive Presented {ι : Type} (β : ι → Type) (i : ι) where
  | refused
  | remembered (value : β i)
  | decoded (serial : Nat) (token : Token.Decoded)

/-- The value of a payload, if its type is the one asked for. -/
def ofType? [DecidableEq ι] (i : ι) (payload : Sigma β) : Option (β i) :=
  if h : payload.1 = i then some (h ▸ payload.2) else none

/-- Decodes a token under the keys of an installation. -/
def open? (installation : Installation) (now : Clock) (h : TokenHandle) (i : ι)
    (issuer : Issuer β) : Presented β i × Issuer β :=
  match Token.decode installation.keys h.text now.wall issuer.maxAge with
  | .ok token => (.decoded installation.serial token, issuer)
  | .error _ => (.refused, issuer.rejectUnder installation.serial now h)

/-- Looks a token up and decodes it if nothing is remembered. A remembered value of another type is
dropped. -/
def present [DecidableEq ι] (now : Clock) (h : TokenHandle) (i : ι) (issuer : Issuer β) :
    Presented β i × Issuer β :=
  match issuer.installed with
  | none => (.refused, issuer)
  | some installation =>
    if issuer.rejected.contains now.running h.digest then (.refused, issuer)
    else
      match issuer.remembered now h with
      | (none, issuer) => issuer.open? installation now h i
      | (some payload, issuer) =>
        match ofType? i payload with
        | some value => (.remembered value, issuer)
        | none =>
          { issuer with validated := issuer.validated.erase h.digest }.open? installation now h i

/-- Remembers the value of a decoded token, unless the keys have changed since; then there is no
value. -/
def settle (now : Clock) (h : TokenHandle) (i : ι) (serial : Nat) (issuedAt : Timestamp)
    (value : Option (β i)) (issuer : Issuer β) : Option (β i) × Issuer β :=
  match value with
  | none => (none, issuer)
  | some value =>
    if issuer.isCurrent serial then
      (some value,
        { issuer with
          validated := issuer.validated.put now.running h.digest ⟨⟨i, value⟩, issuedAt⟩ })
    else (none, issuer)

def validate [DecidableEq ι] (now : Clock) (h : TokenHandle) (i : ι)
    (transform : Bytes → Option (β i)) (issuer : Issuer β) : Option (β i) × Issuer β :=
  match issuer.present now h i with
  | (.refused, issuer) => (none, issuer)
  | (.remembered value, issuer) => (some value, issuer)
  | (.decoded serial token, issuer) =>
    issuer.settle now h i serial token.issuedAt (transform token.payload)

/-! ### Validating within a larger state -/

/-- The place of an issuer and of a clock in a larger state. -/
structure Home (σ : Type) {ι : Type} (β : ι → Type) where
  issuer : σ → Issuer β
  place : Issuer β → σ → σ
  clock : σ → Clock

/-- The value of a token's payload, where the transform may itself act on the state. -/
def validateIn [DecidableEq ι] {σ : Type} (home : Home σ β) (h : TokenHandle) (i : ι)
    (transform : Bytes → σ → Option (β i) × σ) (s : σ) : Option (β i) × σ :=
  match (home.issuer s).present (home.clock s) h i with
  | (.refused, issuer) => (none, home.place issuer s)
  | (.remembered value, issuer) => (some value, home.place issuer s)
  | (.decoded serial token, issuer) =>
    let (value, s) := transform token.payload (home.place issuer s)
    let (value, issuer) :=
      (home.issuer s).settle (home.clock s) h i serial token.issuedAt value
    (value, home.place issuer s)

end Issuer

end QuorumVault
