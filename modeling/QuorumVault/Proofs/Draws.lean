import Mathlib.Tactic
import QuorumVault.Proofs.Entropy

/-!
# What is drawn

A `Plan` says what an operation draws from a source of random bytes, and what for.  It goes on with
the bytes that it has drawn, and has no other way to look into the source.  `Plan.run` carries it
out and keeps a list of the draws, which the source has delivered one after the other (`takes_run`).

Each of such draws begins where the one before it ends (`Takes.start_eq`), and so no two of them
have a byte in common (`Takes.pairwise_disjoint`).
-/

namespace QuorumVault

/-! ### Draws -/

/-- What random bytes are drawn for. -/
inductive Purpose where
  /-- The private key of a session. -/
  | session
  /-- The secret that is used for one encapsulation. -/
  | ephemeral
  /-- An initialisation vector. -/
  | iv
  /-- The nonce of a request. -/
  | nonce
deriving DecidableEq

/-- How many bytes are drawn. -/
def Purpose.length : Purpose → ℕ
  | session | ephemeral | nonce => 32
  | iv => 16

/-- Bytes that have been drawn. -/
structure Draw where
  purpose : Purpose
  /-- The place of the first byte in the source. -/
  start : ℕ
  bytes : Octets purpose.length

/-- The places of the bytes in the source. -/
def Draw.places (d : Draw) : Finset ℕ := Finset.Ico d.start (d.start + d.purpose.length)

/-- The number of bytes that are drawn in all. -/
def Draw.total (draws : List Draw) : ℕ := (draws.map fun d => d.purpose.length).sum

@[simp] theorem Draw.total_nil : total [] = 0 := rfl

@[simp] theorem Draw.total_cons (d : Draw) (draws : List Draw) :
    total (d :: draws) = d.purpose.length + total draws := rfl

/-- The source delivers these draws one after the other. -/
inductive Takes : Entropy → List Draw → Entropy → Prop where
  | nil (rng : Entropy) : Takes rng [] rng
  | cons {purpose : Purpose} {bytes : Octets purpose.length} {rng next rng' : Entropy}
      {draws : List Draw} (h : rng.draw? purpose.length = some (bytes, next))
      (hrest : Takes next draws rng') : Takes rng (⟨purpose, rng.position, bytes⟩ :: draws) rng'

namespace Takes

variable {rng rng' rng'' : Entropy} {draws draws' before after : List Draw} {d : Draw}

theorem append (h : Takes rng draws rng') (h' : Takes rng' draws' rng'') :
    Takes rng (draws ++ draws') rng'' := by
  induction h with
  | nil rng => exact h'
  | cons hdraw hrest ih => exact .cons hdraw (ih h')

/-- The source is the same but for the bytes that have been taken. -/
theorem eq (h : Takes rng draws rng') :
    rng' = { rng with position := rng.position + Draw.total draws } := by
  induction h with
  | nil rng => rfl
  | cons hdraw hrest ih =>
    obtain ⟨-, -, rfl⟩ := Entropy.draw?_eq_some_iff.mp hdraw
    rw [ih, Draw.total_cons]
    simp only [Nat.add_assoc]

/-- A draw begins where those before it end, and consists of the bytes of the source there. -/
theorem start_eq (h : Takes rng draws rng') (hdraws : draws = before ++ d :: after) :
    d.start = rng.position + Draw.total before ∧
      d.bytes = Octets.ofFn fun i => rng.byteAt (d.start + i) := by
  induction h generalizing before with
  | nil rng =>
    exact absurd hdraws.symm (List.append_ne_nil_of_right_ne_nil _ (List.cons_ne_nil _ _))
  | cons hdraw hrest ih =>
    obtain ⟨-, hbytes, rfl⟩ := Entropy.draw?_eq_some_iff.mp hdraw
    cases before with
    | nil =>
      obtain ⟨rfl, -⟩ := List.cons.inj hdraws
      exact ⟨rfl, hbytes⟩
    | cons first before =>
      obtain ⟨rfl, hmore⟩ := List.cons.inj hdraws
      obtain ⟨hstart, hbytes⟩ := ih hmore
      rw [Draw.total_cons, ← Nat.add_assoc]
      exact ⟨hstart, hbytes⟩

theorem position_le (h : Takes rng draws rng') (hd : d ∈ draws) : rng.position ≤ d.start := by
  obtain ⟨before, after, hdraws⟩ := List.append_of_mem hd
  rw [(h.start_eq hdraws).1]
  exact Nat.le_add_right _ _

/-- No byte of the source is in two draws. -/
theorem pairwise_disjoint (h : Takes rng draws rng') :
    draws.Pairwise fun d d' => Disjoint d.places d'.places := by
  induction h with
  | nil rng => exact .nil
  | cons hdraw hrest ih =>
    obtain ⟨-, -, rfl⟩ := Entropy.draw?_eq_some_iff.mp hdraw
    refine .cons (fun d hd => ?_) ih
    -- what comes later begins behind the last byte of this draw
    have hle := hrest.position_le hd
    exact Finset.disjoint_left.mpr fun n hn hn' =>
      Nat.not_le.mpr (Finset.mem_Ico.mp hn).2 (hle.trans (Finset.mem_Ico.mp hn').1)

end Takes

/-- The bytes that are delivered next. -/
def Entropy.next (rng : Entropy) (n : ℕ) : Octets n :=
  Octets.ofFn fun i => rng.byteAt (rng.position + i)

/-- The draws for some purposes, in their order, as long as the source can deliver them. -/
def Entropy.drawAll (rng : Entropy) : List Purpose → List Draw
  | [] => []
  | purpose :: purposes =>
    match rng.draw? purpose.length with
    | none => []
    | some (bytes, next) => ⟨purpose, rng.position, bytes⟩ :: next.drawAll purposes

/-! ### Plans -/

/-- What is drawn, what is done if that is not possible, and how it goes on otherwise. -/
inductive Plan (ρ : Type) where
  | done (result : ρ)
  | draw (purpose : Purpose) (setback : ρ) (next : Octets purpose.length → Plan ρ)

namespace Plan

variable {ρ σ ε α β : Type}

/-- The result of a plan, the draws, and the source that is left. -/
def run : Plan ρ → Entropy → ρ × List Draw × Entropy
  | done result, rng => (result, [], rng)
  | draw purpose setback next, rng =>
    match rng.draw? purpose.length with
    | none => (setback, [], rng)
    | some (bytes, rng') =>
      let (result, draws, rng'') := (next bytes).run rng'
      (result, ⟨purpose, rng.position, bytes⟩ :: draws, rng'')

/-- The draws of a plan. -/
def draws (plan : Plan ρ) (rng : Entropy) : List Draw := (plan.run rng).2.1

/-- The purposes of a plan may depend on the bytes that have been drawn before. -/
theorem draws_draw {purpose : Purpose} {setback : ρ} {next : Octets purpose.length → Plan ρ}
    {rng : Entropy} {purposes : List Purpose}
    (h : ∀ rng' : Entropy,
      (next (rng.next purpose.length)).draws rng' = rng'.drawAll purposes) :
    (draw purpose setback next).draws rng = rng.drawAll (purpose :: purposes) := by
  unfold draws run Entropy.drawAll
  cases hdraw : rng.draw? purpose.length with
  | none => rfl
  | some drawn =>
    obtain ⟨-, hbytes, -⟩ := Entropy.draw?_eq_some_iff.mp hdraw
    dsimp only
    rw [← h drawn.2, Entropy.next, ← hbytes]
    rfl

/-- What the plan comes to, if nobody keeps a list of the draws. -/
def outcome (plan : Plan ρ) (rng : Entropy) : ρ × Entropy := ((plan.run rng).1, (plan.run rng).2.2)

/-- The draws of a plan are delivered one after the other. -/
theorem takes_run (plan : Plan ρ) (rng : Entropy) :
    Takes rng (plan.draws rng) (plan.outcome rng).2 := by
  induction plan generalizing rng with
  | done result => exact .nil rng
  | draw purpose setback next ih =>
    unfold draws outcome run
    cases hdraw : rng.draw? purpose.length with
    | none => exact .nil rng
    | some drawn => exact .cons hdraw (ih drawn.1 drawn.2)

/-- The same plan with another result. -/
def map (f : ρ → σ) : Plan ρ → Plan σ
  | done result => done (f result)
  | draw purpose setback next => draw purpose (f setback) fun bytes => (next bytes).map f

theorem run_map (f : ρ → σ) (plan : Plan ρ) (rng : Entropy) :
    (plan.map f).run rng = (f (plan.run rng).1, (plan.run rng).2) := by
  induction plan generalizing rng with
  | done result => rfl
  | draw purpose setback next ih =>
    unfold map run
    cases rng.draw? purpose.length with
    | none => rfl
    | some drawn => simp only [ih]

theorem draws_map (f : ρ → σ) (plan : Plan ρ) (rng : Entropy) :
    (plan.map f).draws rng = plan.draws rng := by
  rw [draws, run_map, draws]

theorem outcome_map (f : ρ → σ) (plan : Plan ρ) (rng : Entropy) :
    (plan.map f).outcome rng = (f (plan.outcome rng).1, (plan.outcome rng).2) := by
  rw [outcome, run_map, outcome]

/-- A step that draws nothing and may fail. -/
def attempt (result : Except ε α) (next : α → Plan (Except (Setback ε) β)) :
    Plan (Except (Setback ε) β) :=
  match result with
  | .error fault => done (.error (.fault fault))
  | .ok a => next a

theorem draws_attempt (result : Except ε α) {next : α → Plan (Except (Setback ε) β)}
    (h : ∀ a rng, (next a).draws rng = []) (rng : Entropy) :
    (attempt result next).draws rng = [] := by
  cases result with
  | error fault => rfl
  | ok a => exact h a rng

/-! ### Operations that follow a plan -/

/-- An operation that begins with a draw. -/
theorem octets_bind (purpose : Purpose) (setback : Setback ε)
    {f : Octets purpose.length → Drawing ε α}
    {next : Octets purpose.length → Plan (Except (Setback ε) α)}
    (h : ∀ bytes rng, f bytes rng = (next bytes).outcome rng) (rng : Entropy) :
    (Drawing.octets purpose.length setback >>= f) rng =
      (draw purpose (.error setback) next).outcome rng := by
  unfold outcome run
  cases hdraw : rng.draw? purpose.length with
  | none =>
    have hfail : Drawing.octets purpose.length setback rng = (.error setback, rng) := by
      rw [Drawing.octets, hdraw]
    exact Drawing.bind_of_error f hfail
  | some drawn => exact (Drawing.octets_bind_of_draw f hdraw).trans (h drawn.1 drawn.2)

/-- An operation that begins with something that may fail and draws nothing. -/
theorem ofExcept_bind (result : Except ε α) {f : α → Drawing ε β}
    {next : α → Plan (Except (Setback ε) β)} (h : ∀ a rng, f a rng = (next a).outcome rng)
    (rng : Entropy) : (Drawing.ofExcept result >>= f) rng = (attempt result next).outcome rng := by
  cases result with
  | error fault => exact Drawing.bind_of_error f rfl
  | ok a => exact (Drawing.bind_of_ok f rfl).trans (h a rng)

end Plan

end QuorumVault
