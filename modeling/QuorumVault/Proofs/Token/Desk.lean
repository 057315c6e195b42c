import Mathlib.Tactic
import QuorumVault.Proofs.Token.Verdicts

/-!
# Issuers in use

A `Desk` is an issuer with the clock and the source of random bytes that it uses, and with a record
of the calls that presented tokens and of the values that transforms returned.  `Desk.Reaches` says
what may come about at a desk while keys are installed and cleared, tokens are issued, and tokens
out of a given set are presented, also by transforms.  The clock runs on, and its time of day may be
set at will.  A call takes the time when it starts, and a validation once more after its transform.

* `Desk.validate_eq`, `Desk.validate_cases`: a validation looks the token up, runs the transform,
  and settles;
* `Desk.validate_of_settled`: the value that a validation gave is given again;
* `Desk.Reaches.follows`: the record only grows, and no installation comes back.
-/

namespace QuorumVault

variable {ι : Type} {β : ι → Type}

/-! ### What is recorded -/

/-- A question about a token. -/
structure Desk.Call {ι : Type} (β : ι → Type) where
  handle : TokenHandle
  /-- The type of the value that is asked for; nothing if the token is only to be verified. -/
  purpose : Option ι
  clock : Clock
  /-- The issuer as the call finds it. -/
  issuer : Issuer β

/-- A value that a transform returned for the payload of a token. -/
structure Desk.Return {ι : Type} (β : ι → Type) where
  call : Desk.Call β
  payload : Bytes
  /-- The type of the value, and the value. -/
  value : Sigma β
  clock : Clock

/-- An issuer in use. -/
structure Desk {ι : Type} (β : ι → Type) where
  issuer : Issuer β
  clock : Clock
  rng : Entropy
  calls : List (Desk.Call β)
  returns : List (Desk.Return β)

namespace Desk

variable {presented : Set TokenHandle} {t : TokenHandle} {i : ι} {w x y : Desk β}

/-- The call is not answered from what the issuer remembers as refused, and the text of the token is
refused: it is not verified, or not decoded if a value is asked for. -/
def Call.Fails (c : Call β) : Prop :=
  ∃ installation fault, c.issuer.installed = some installation ∧
    c.issuer.rejected.contains c.clock.running c.handle.digest = false ∧
    match c.purpose with
    | none =>
      Token.verify installation.keys c.handle.text c.clock.wall c.issuer.maxAge = .error fault
    | some _ =>
      Token.decode installation.keys c.handle.text c.clock.wall c.issuer.maxAge = .error fault

/-- A desk at which nothing has happened. -/
def ofPolicy (policy : TokenPolicy) (clock : Clock) (rng : Entropy) : Desk β :=
  ⟨.ofPolicy policy, clock, rng, [], []⟩

/-- Where the issuer and the clock of a desk are. -/
def home : Issuer.Home (Desk β) β where
  issuer := issuer
  place issuer w := { w with issuer := issuer }
  clock := clock

/-- The call that presents a token now. -/
def call (t : TokenHandle) (purpose : Option ι) (w : Desk β) : Call β :=
  ⟨t, purpose, w.clock, w.issuer⟩

/-- Records the value that a transform returned, if it returned one. -/
def note (c : Call β) (i : ι) (payload : Bytes) (value : Option (β i)) (w : Desk β) : Desk β :=
  { w with
    returns := (value.map fun v => ⟨c, payload, ⟨i, v⟩, w.clock⟩).toList ++ w.returns }

/-! ### What can be asked for -/

def install (master : SecretKey) (w : Desk β) : Desk β :=
  { w with issuer := w.issuer.install master }

def clear (w : Desk β) : Desk β := { w with issuer := w.issuer.clear }

def issue (payload : Bytes) (w : Desk β) :
    Except (Setback TokenFault) (Option String) × Desk β :=
  let (result, rng) := w.issuer.issue payload w.clock.wall w.rng
  (result, { w with rng := rng })

def valid (t : TokenHandle) (w : Desk β) : Bool × Desk β :=
  let (accepted, issuer) := w.issuer.valid w.clock t
  (accepted, { w with issuer := issuer, calls := w.call t none :: w.calls })

/-- What a validation does with what its transform returned. -/
def leave (c : Call β) (i : ι) (serial : ℕ) (token : Token.Decoded) (value : Option (β i))
    (w : Desk β) : Option (β i) × Desk β :=
  let (result, issuer) := w.issuer.settle w.clock c.handle i serial token.issuedAt value
  (result, { w.note c i token.payload value with issuer := issuer })

theorem leave_cases (c : Call β) (serial : ℕ) (token : Token.Decoded) (value : Option (β i))
    (w : Desk β) :
    (∃ v, value = some v ∧ w.issuer.isCurrent serial = true ∧
        (w.leave c i serial token value).1 = some v) ∨
      (value = none ∨ w.issuer.isCurrent serial = false) ∧
        (w.leave c i serial token value).1 = none ∧
        (w.leave c i serial token value).2.issuer = w.issuer := by
  unfold leave
  rcases Issuer.settle_cases w.clock c.handle i serial token.issuedAt value w.issuer with
    ⟨v, hvalue, hcurrent, h⟩ | ⟨hnothing, h⟩
  · rw [h]
    exact .inl ⟨v, hvalue, hcurrent, rfl⟩
  · rw [h]
    exact .inr ⟨hnothing, rfl, rfl⟩

theorem leave_installed (c : Call β) (serial : ℕ) (token : Token.Decoded) (value : Option (β i))
    (w : Desk β) : (w.leave c i serial token value).2.issuer.installed = w.issuer.installed :=
  (Issuer.sameButVerdicts_settle w.clock c.handle i serial _ value w.issuer).installed

/-! ### What only grows -/

/-- The record of `w` is part of the one of `x`, no time was taken back, and if other keys are
installed then by a later installation. -/
structure Follows (w x : Desk β) : Prop where
  running : w.clock.running.nanos ≤ x.clock.running.nanos
  calls : w.calls ⊆ x.calls
  returns : w.returns ⊆ x.returns
  installations : w.issuer.installations ≤ x.issuer.installations
  installed : x.issuer.installed = w.issuer.installed ∨
    ∀ i, x.issuer.installed = some i → w.issuer.installations ≤ i.serial

namespace Follows

theorem refl (w : Desk β) : Follows w w :=
  ⟨le_rfl, fun _ h => h, fun _ h => h, le_rfl, .inl rfl⟩

theorem trans (hwx : Follows w x) (hxy : Follows x y) : Follows w y where
  running := hwx.running.trans hxy.running
  calls _ h := hxy.calls (hwx.calls h)
  returns _ h := hxy.returns (hwx.returns h)
  installations := hwx.installations.trans hxy.installations
  installed := by
    rcases hxy.installed with hsame | hlater
    · rw [hsame]
      exact hwx.installed
    · exact .inr fun i hi => hwx.installations.trans (hlater i hi)

theorem of_sameButVerdicts (h : Issuer.SameButVerdicts w.issuer x.issuer)
    (hclock : x.clock = w.clock) (hcalls : w.calls ⊆ x.calls) (hreturns : w.returns ⊆ x.returns) :
    Follows w x :=
  ⟨by rw [hclock], hcalls, hreturns, h.installations.ge, .inl h.installed⟩

/-- Once whatever is installed is not older than `n`, it stays so. -/
theorem le_serial {n : ℕ} (hwx : Follows w x) (hn : n ≤ w.issuer.installations)
    (hw : ∀ i, w.issuer.installed = some i → n ≤ i.serial) :
    ∀ i, x.issuer.installed = some i → n ≤ i.serial := by
  intro i hi
  rcases hwx.installed with hsame | hlater
  · rw [hsame] at hi
    exact hw i hi
  · exact hn.trans (hlater i hi)

/-- An installation that is still in place has the same keys as before. -/
theorem installed_eq {installation : Installation} (hwx : Follows w x)
    (hinstalled : w.issuer.installed = some installation)
    (hserial : installation.serial < w.issuer.installations)
    (hcurrent : x.issuer.isCurrent installation.serial = true) :
    x.issuer.installed = some installation := by
  obtain ⟨i, hi, hiserial⟩ := Issuer.isCurrent_iff.mp hcurrent
  rcases hwx.installed with hsame | hlater
  · rw [hsame, hinstalled]
  · have hle := hlater i hi
    omega

end Follows

theorem follows_elsewhere {clock : Clock} (rng : Entropy)
    (hclock : w.clock.running.nanos ≤ clock.running.nanos) :
    Follows w { w with clock := clock, rng := rng } :=
  ⟨hclock, fun _ h => h, fun _ h => h, le_rfl, .inl rfl⟩

theorem follows_install (master : SecretKey) (w : Desk β) : Follows w (w.install master) where
  running := le_rfl
  calls _ h := h
  returns _ h := h
  installations := Nat.le_succ _
  installed := .inr fun i hi => by
    cases hi
    exact le_rfl

theorem follows_clear (w : Desk β) : Follows w w.clear where
  running := le_rfl
  calls _ h := h
  returns _ h := h
  installations := le_rfl
  installed := .inr fun i hi => by cases hi

theorem follows_issue (payload : Bytes) (w : Desk β) : Follows w (w.issue payload).2 :=
  follows_elsewhere _ le_rfl

theorem follows_valid (t : TokenHandle) (w : Desk β) : Follows w (w.valid t).2 :=
  .of_sameButVerdicts (Issuer.sameButVerdicts_valid w.clock t w.issuer) rfl
    (List.subset_cons_self _ _) fun _ h => h

theorem follows_leave (c : Call β) (serial : ℕ) (token : Token.Decoded) (value : Option (β i))
    (w : Desk β) : Follows w (w.leave c i serial token value).2 :=
  .of_sameButVerdicts (Issuer.sameButVerdicts_settle _ _ _ _ _ _ _) rfl (fun _ h => h)
    (List.subset_append_right _ _)

/-! ### Validating -/

variable [DecidableEq ι]

/-- Validates a token with a transform that may itself act on the desk. -/
def validate (t : TokenHandle) (i : ι)
    (transform : Bytes → Desk β → Option (β i) × Desk β) (w : Desk β) : Option (β i) × Desk β :=
  let c := w.call t (some i)
  let noting payload z :=
    let (value, z) := transform payload z
    (value, z.note c i payload value)
  Issuer.validateIn home t i noting { w with calls := c :: w.calls }

/-- The desk after a token was looked up and, if need be, decoded. -/
def enter (t : TokenHandle) (i : ι) (w : Desk β) : Desk β :=
  { w with
    issuer := (w.issuer.present w.clock t i).2
    calls := w.call t (some i) :: w.calls }

theorem follows_enter (t : TokenHandle) (i : ι) (w : Desk β) : Follows w (w.enter t i) :=
  .of_sameButVerdicts (Issuer.sameButVerdicts_present w.clock t i w.issuer) rfl
    (List.subset_cons_self _ _) fun _ h => h

theorem validate_eq (t : TokenHandle) (i : ι)
    (transform : Bytes → Desk β → Option (β i) × Desk β) (w : Desk β) :
    w.validate t i transform =
      match (w.issuer.present w.clock t i).1 with
      | .refused => (none, w.enter t i)
      | .remembered value => (some value, w.enter t i)
      | .decoded serial token =>
        let (value, z) := transform token.payload (w.enter t i)
        z.leave (w.call t (some i)) i serial token value := by
  unfold validate Issuer.validateIn enter
  dsimp only [home]
  rcases w.issuer.present w.clock t i with ⟨_ | value | ⟨serial, token⟩, issuer⟩
  · rfl
  · rfl
  · rfl

/-- A validation whose token is decoded settles with what the transform returned. -/
theorem validate_of_decoded {serial : ℕ} {token : Token.Decoded} {value : Option (β i)}
    (transform : Bytes → Desk β → Option (β i) × Desk β)
    (hdecoded : (w.issuer.present w.clock t i).1 = .decoded serial token)
    (htransform : transform token.payload (w.enter t i) = (value, y)) :
    ∃ z, z.issuer = (y.issuer.settle y.clock t i serial token.issuedAt value).2 ∧
      z.clock = y.clock ∧
      w.validate t i transform =
        ((y.issuer.settle y.clock t i serial token.issuedAt value).1, z) := by
  refine ⟨(y.leave (w.call t (some i)) i serial token value).2, rfl, rfl, ?_⟩
  rw [validate_eq, hdecoded]
  dsimp only
  rw [htransform]
  rfl

/-- The value that a validation gave is given again, whatever the transform would give, until the
lifetime of verdicts has passed or the token is too old. -/
theorem validate_of_settled {serial : ℕ} {token : Token.Decoded} {value : β i}
    {transform : Bytes → Desk β → Option (β i) × Desk β}
    (hdecoded : (w.issuer.present w.clock t i).1 = .decoded serial token)
    (htransform : transform token.payload (w.enter t i) = (some value, y))
    (hcurrent : y.issuer.isCurrent serial = true) (later : Clock)
    (hrejected : y.issuer.rejected.contains later.running t.digest = false)
    (hlive : later.running.nanos - y.clock.running.nanos < y.issuer.validated.ttl.nanos)
    (hage : Token.checkAge token.issuedAt later.wall y.issuer.maxAge = .ok ()) :
    let z := { (w.validate t i transform).2 with clock := later }
    (z.valid t).1 = true ∧ ∀ other, (z.validate t i other).1 = some value := by
  intro z
  obtain ⟨settled, hissuer, -, hvalidate⟩ := validate_of_decoded transform hdecoded htransform
  obtain ⟨hvalid, hremembered⟩ :=
    Issuer.present_of_settle hissuer hcurrent hrejected hlive hage
  have hz : z.issuer = settled.issuer := congrArg (fun x => x.2.issuer) hvalidate
  constructor
  · show (z.issuer.valid later t).1 = true
    rw [hz]
    exact hvalid
  · intro other
    rw [validate_eq, hz, hremembered]

theorem enter_installed (t : TokenHandle) (i : ι) (w : Desk β) :
    (w.enter t i).issuer.installed = w.issuer.installed :=
  (Issuer.sameButVerdicts_present w.clock t i w.issuer).installed

theorem validate_cases (t : TokenHandle) (i : ι)
    (transform : Bytes → Desk β → Option (β i) × Desk β) (w : Desk β) :
    (w.issuer.installed = none ∧ (w.validate t i transform).1 = none) ∨
      ∃ installation, w.issuer.installed = some installation ∧
        ((w.issuer.rejected.contains w.clock.running t.digest = true ∧
            (w.validate t i transform).1 = none) ∨
          (∃ value, w.issuer.Serves w.clock t ⟨i, value⟩ ∧
            w.validate t i transform = (some value, w.enter t i)) ∨
          (∃ fault, Token.decode installation.keys t.text w.clock.wall w.issuer.maxAge =
              .error fault ∧ (w.validate t i transform).1 = none) ∨
          ∃ token, Token.decode installation.keys t.text w.clock.wall w.issuer.maxAge =
              .ok token ∧
            w.validate t i transform =
              (transform token.payload (w.enter t i)).2.leave (w.call t (some i)) i
                installation.serial token (transform token.payload (w.enter t i)).1) := by
  rw [validate_eq]
  rcases Issuer.present_cases w.clock t i w.issuer with
    ⟨hinstalled, h⟩ | ⟨installation, hinstalled, ⟨hrejected, h⟩ | ⟨-, ⟨value, b, hserves, -, h⟩ |
      ⟨token, b, hdecode, -, h⟩ | ⟨fault, b, hdecode, -, h⟩⟩⟩
  · rw [h]
    exact .inl ⟨hinstalled, rfl⟩
  · rw [h]
    exact .inr ⟨installation, hinstalled, .inl ⟨hrejected, rfl⟩⟩
  · rw [h]
    exact .inr ⟨installation, hinstalled, .inr (.inl ⟨value, hserves, rfl⟩)⟩
  · rw [h]
    exact .inr ⟨installation, hinstalled, .inr (.inr (.inr ⟨token, hdecode, rfl⟩))⟩
  · rw [h]
    exact .inr ⟨installation, hinstalled, .inr (.inr (.inl ⟨fault, hdecode, rfl⟩))⟩

/-! ### What may come about -/

/-- The desks that may come about while only tokens out of `presented` are presented, also within
the transforms of validations that have not ended yet. -/
inductive Reaches (presented : Set TokenHandle) : Desk β → Desk β → Prop where
  | refl (w : Desk β) : Reaches presented w w
  | elsewhere {w x : Desk β} (clock : Clock) (rng : Entropy) (h : Reaches presented w x)
      (hclock : x.clock.running.nanos ≤ clock.running.nanos) :
      Reaches presented w { x with clock := clock, rng := rng }
  | install {w x : Desk β} (master : SecretKey) (h : Reaches presented w x) :
      Reaches presented w (x.install master)
  | clear {w x : Desk β} (h : Reaches presented w x) : Reaches presented w x.clear
  | issue {w x : Desk β} (payload : Bytes) (h : Reaches presented w x) :
      Reaches presented w (x.issue payload).2
  | valid {w x : Desk β} {t : TokenHandle} (ht : t ∈ presented) (h : Reaches presented w x) :
      Reaches presented w (x.valid t).2
  | enter {w x : Desk β} {t : TokenHandle} (i : ι) (ht : t ∈ presented)
      (h : Reaches presented w x) : Reaches presented w (x.enter t i)
  | leave {w x y : Desk β} {t : TokenHandle} {i : ι} {serial : ℕ} {token : Token.Decoded}
      (value : Option (β i)) (ht : t ∈ presented)
      (hdecoded : (x.issuer.present x.clock t i).1 = .decoded serial token)
      (h : Reaches presented w x) (hinside : Reaches presented (x.enter t i) y) :
      Reaches presented w (y.leave (x.call t (some i)) i serial token value).2

/-- The transform does nothing to the desk but ask for what can be asked for. -/
def Acts (presented : Set TokenHandle) (transform : Bytes → Desk β → Option (β i) × Desk β)
    (w : Desk β) : Prop :=
  ∀ payload, Reaches presented w (transform payload w).2

namespace Reaches

theorem validate {transform : Bytes → Desk β → Option (β i) × Desk β} (ht : t ∈ presented)
    (htransform : Acts presented transform (x.enter t i)) (h : Reaches presented w x) :
    Reaches presented w (x.validate t i transform).2 := by
  rw [validate_eq]
  split
  · exact h.enter i ht
  · exact h.enter i ht
  · rename_i serial token hdecoded
    exact h.leave _ ht hdecoded (htransform token.payload)

theorem follows (h : Reaches presented w x) : Follows w x := by
  induction h with
  | refl w => exact .refl w
  | elsewhere clock rng h hclock ih => exact ih.trans (follows_elsewhere rng hclock)
  | install master h ih => exact ih.trans (follows_install master _)
  | clear h ih => exact ih.trans (follows_clear _)
  | issue payload h ih => exact ih.trans (follows_issue payload _)
  | valid ht h ih => exact ih.trans (follows_valid _ _)
  | enter i ht h ih => exact ih.trans (follows_enter _ i _)
  | leave value ht hdecoded h hinside ih ihinside =>
    exact (ih.trans (follows_enter _ _ _)).trans (ihinside.trans (follows_leave _ _ _ _ _))

end Reaches

end Desk

end QuorumVault
