import Mathlib.Tactic
import QuorumVault.Entropy

/-!
# Drawing random bytes

How operations that draw random bytes compose: a sequence succeeds iff each of its steps does, from
the place that the step before it has reached.  A successful draw of `n` bytes moves the place by
`n` (`draw?_eq_some_iff`), and a source delivers the bytes of which it consists (`draw?_ofBytes`).
-/

namespace QuorumVault

/-! ### Sources -/

namespace Entropy

theorem draw?_eq_some_iff {n : ℕ} {rng rng' : Entropy} {bytes : Octets n} :
    rng.draw? n = some (bytes, rng') ↔
      rng.canDraw n = true ∧ bytes = Octets.ofFn (fun i => rng.byteAt (rng.position + i)) ∧
        rng' = { rng with position := rng.position + n } := by
  unfold draw?
  split_ifs with h
  · simp only [Option.some.injEq, Prod.mk.injEq, h, true_and]
    exact and_congr eq_comm eq_comm
  · simp [h]

/-- A source delivers the bytes of which it consists. -/
theorem draw?_ofBytes {n : ℕ} (before : Bytes) (octets : Octets n) (after : Bytes) :
    draw? n { ofBytes (before ++ octets.toList ++ after) with position := before.length } =
      some (octets, { ofBytes (before ++ octets.toList ++ after) with
        position := before.length + n }) := by
  refine draw?_eq_some_iff.mpr ⟨?_, ?_, rfl⟩
  · simp [ofBytes, canDraw]
  · apply Octets.ext
    simp only [ofBytes, Octets.ofFn]
    refine List.ext_getElem (by simp) fun i h1 h2 => ?_
    rw [List.getElem_map, List.getElem_range, List.getD_eq_getElem?_getD, List.append_assoc,
      List.getElem?_append_right (Nat.le_add_right _ _), Nat.add_sub_cancel_left,
      List.getElem?_append_left h1, List.getElem?_eq_getElem h1, Option.getD_some]

/-- Every byte string is the next one of some source. -/
theorem exists_draw?_eq {n : ℕ} (octets : Octets n) :
    ∃ rng', (ofBytes octets.toList).draw? n = some (octets, rng') := by
  have h := draw?_ofBytes [] octets []
  rw [List.nil_append, List.append_nil] at h
  exact ⟨_, h⟩

end Entropy

/-! ### Operations -/

namespace Drawing

variable {ε α β : Type} {rng rng' : Entropy}

/-- Two successes are the same iff their values and sources are. -/
@[simp] theorem ok_eq_ok_iff {a b : α} :
    @Eq (Id (Except (Setback ε) α × Entropy)) (.ok a, rng) (.ok b, rng') ↔
      a = b ∧ rng = rng' := by
  constructor
  · intro h
    cases h
    exact ⟨rfl, rfl⟩
  · rintro ⟨rfl, rfl⟩
    rfl

/-- A failure is no success. -/
@[simp] theorem error_ne_ok {setback : Setback ε} {b : α} :
    ¬@Eq (Id (Except (Setback ε) α × Entropy)) (.error setback, rng) (.ok b, rng') := by
  intro h
  cases h

theorem octets_eq_ok_iff {n : ℕ} {setback : Setback ε} {bytes : Octets n} :
    octets n setback rng = (.ok bytes, rng') ↔ rng.draw? n = some (bytes, rng') := by
  unfold octets
  split
  · rename_i h
    rw [h]
    simp
  · rename_i h
    simp [h]

theorem ofExcept_eq_ok_iff {result : Except ε α} {a : α} :
    ofExcept result rng = (.ok a, rng') ↔ result = .ok a ∧ rng' = rng := by
  unfold ofExcept
  cases result with
  | error e => simp [Except.mapError]
  | ok b => simp [Except.mapError, eq_comm]

theorem pure_eq_ok_iff {a b : α} :
    (pure a : Drawing ε α) rng = (.ok b, rng') ↔ a = b ∧ rng = rng' :=
  ok_eq_ok_iff

theorem bind_of_ok {d : Drawing ε α} (f : α → Drawing ε β) {a : α} (h : d rng = (.ok a, rng')) :
    (d >>= f) rng = f a rng' := by
  change (ExceptT.bindCont f (d rng).1) (d rng).2 = _
  rw [h]
  rfl

/-- An operation goes on with the bytes that it has drawn. -/
theorem octets_bind_of_draw {n : ℕ} {setback : Setback ε} {bytes : Octets n}
    (f : Octets n → Drawing ε β) (h : rng.draw? n = some (bytes, rng')) :
    (octets n setback >>= f) rng = f bytes rng' :=
  bind_of_ok f (octets_eq_ok_iff.mpr h)

theorem bind_of_error {d : Drawing ε α} (f : α → Drawing ε β) {setback : Setback ε}
    (h : d rng = (.error setback, rng')) : (d >>= f) rng = (.error setback, rng') := by
  change (ExceptT.bindCont f (d rng).1) (d rng).2 = _
  rw [h]
  rfl

/-- A sequence succeeds iff both of its steps do. -/
theorem bind_eq_ok_iff {d : Drawing ε α} {f : α → Drawing ε β} {b : β} :
    (d >>= f) rng = (.ok b, rng') ↔
      ∃ a rng₁, d rng = (.ok a, rng₁) ∧ f a rng₁ = (.ok b, rng') := by
  rcases hd : d rng with ⟨setback | a, rng₁⟩
  · rw [bind_of_error f hd]
    simp
  · rw [bind_of_ok f hd]
    constructor
    · intro h
      exact ⟨a, rng₁, rfl, h⟩
    · rintro ⟨a', rng₂, h, h'⟩
      cases h
      exact h'

end Drawing

end QuorumVault
