import Mathlib.Tactic
import QuorumVault.Proofs.Vault.Run

/-!
# Operations that fail

An operation that fails leaves no trace but in the journal: the session, the master key, the pending
shares, both nonces, the keys of the tokens and all verdicts are as they were (`run_of_isFailure`).
This also holds where an operation has to undo what it did before it failed, as `reconstruct` does
with the shares that it took out and `serve` with the nonce that it claimed.

The one exception is an answer from a peer that the vault tries to open, for then the request is
used up even if the answer does not open.
-/

namespace QuorumVault

variable {ι : Type} {β : ι → Type} {v : Vault β}

namespace Vault

theorem startSession_of_isFailure {stamp : Stamp} {rng : Entropy}
    (h : (Answer.started (v.startSession stamp rng).1).isFailure = true) :
    SameButJournal v (v.startSession stamp rng).2.1 := by
  rcases startSession_cases stamp v rng with ⟨session, rng', -, -, hstart⟩ | ⟨setback, rng', hstart⟩
  · rw [hstart] at h
    cases h
  · rw [hstart]
    exact .refl v

theorem submit_of_isFailure {stamp : Stamp} {envelope : Envelope}
    (h : (Answer.submitted (v.submit stamp envelope).1).isFailure = true) :
    SameButJournal v (v.submit stamp envelope).2 := by
  rcases submit_cases stamp envelope v with ⟨session, share, -, -, -, hsubmit⟩ | ⟨-, hsame⟩
  · rw [hsubmit] at h
    cases h
  · exact hsame

theorem reconstruct_of_isFailure {stamp : Stamp}
    (h : (Answer.reconstructed (v.reconstruct stamp).1).isFailure = true) :
    SameButJournal v (v.reconstruct stamp).2 := by
  rcases reconstruct_cases stamp v with ⟨session, secret, -, -, hreconstruct⟩ | ⟨-, hsame⟩
  · rw [hreconstruct] at h
    cases h
  · exact hsame

theorem serve_of_isFailure {stamp : Stamp} {r : KeyRequest} {rng : Entropy}
    (h : (Answer.served (v.serve stamp r rng).1).isFailure = true) :
    SameButJournal v (v.serve stamp r rng).2.1 := by
  rcases serve_cases stamp r v rng with
    ⟨session, masterKey, bundle, rng', -, -, -, hpack, hserve⟩ |
      ⟨session, masterKey, rng', -, hserve⟩ | ⟨-, hsame⟩
  · -- a bundle that has been packed is not taken for an empty one
    have hbundle := Envelope.isEmpty_of_pack hpack
    rw [hserve, Answer.isFailure, hbundle] at h
    cases h
  · rw [hserve] at h
    cases h
  · exact hsame

theorem request_of_isFailure {stamp : Stamp} {rng : Entropy}
    (h : (Answer.requested (v.request stamp rng).1).isFailure = true) :
    SameButJournal v (v.request stamp rng).2.1 := by
  rcases request_cases stamp v rng with ⟨session, nonce, r, rng', -, -, hrequest⟩ |
    ⟨setback, rng', hrequest⟩
  · rw [hrequest] at h
    cases h
  · rw [hrequest]
    exact .refl v

theorem takeOver_of_isFailure {stamp : Stamp} {bundle : Envelope} (hopens : Opens bundle v)
    (h : (Answer.takenOver (v.takeOver stamp bundle).1).isFailure = true) :
    SameButJournal { v with requestedNonce := none } (v.takeOver stamp bundle).2 := by
  obtain ⟨session, nonce, -, -, htake⟩ := takeOver_of_opens stamp hopens
  rw [htake] at h ⊢
  cases hopen : openBundle v.settings.suite session bundle nonce with
  | error refusal => exact .log _ _
  | ok masterKey =>
    rw [hopen] at h
    cases h

end Vault

/-- **Atomicity**: an operation that fails changes nothing but the journal, except that an answer
from a peer uses up the request for which the vault tries to open it. -/
theorem Operation.run_of_isFailure (o : Operation) (w : World β)
    (h : (o.run w).1.isFailure = true) :
    ((∀ stamp bundle, o = .takeOver stamp bundle → ¬Vault.Opens bundle w.vault) →
      Vault.SameButJournal w.vault (o.run w).2.vault) ∧
    ∀ stamp bundle, o = .takeOver stamp bundle → Vault.Opens bundle w.vault →
      Vault.SameButJournal { w.vault with requestedNonce := none } (o.run w).2.vault := by
  constructor
  · intro hopens
    cases o with
    | startSession stamp => exact Vault.startSession_of_isFailure h
    | sessionKey => exact .refl w.vault
    | submit stamp envelope => exact Vault.submit_of_isFailure h
    | reconstruct stamp => exact Vault.reconstruct_of_isFailure h
    | sealOff stamp => cases h
    | serve stamp r => exact Vault.serve_of_isFailure h
    | request stamp => exact Vault.request_of_isFailure h
    | takeOver stamp bundle =>
      obtain ⟨refusal, htake⟩ := Vault.takeOver_of_not_opens stamp (hopens stamp bundle rfl)
      rw [show (Operation.run (.takeOver stamp bundle) w).2.vault =
        (w.vault.takeOver stamp bundle).2 from rfl, htake]
      exact .refl w.vault
    | issueToken payload => exact .refl w.vault
    | acceptsToken t => cases h
  · rintro stamp bundle rfl hopens
    exact Vault.takeOver_of_isFailure hopens h

/-- A request for the master key whose public key lets no secret be exchanged claims the nonce and
then fails. -/
theorem Operation.run_of_isFailure_serve :
    let session : KeyPair := ⟨.zeros 32⟩
    let v : Vault fun _ : Unit => Unit :=
      (Vault.fresh .standard .alwaysAccept none).install session ⟨.zeros 32⟩
    let r : KeyRequest := .unsigned ⟨.zeros 32⟩ ⟨.zeros 32⟩
    let served := (Operation.run (.serve ⟨.zeros 16, .ofSeconds 0⟩ r)
      ⟨v, ⟨.ofSeconds 0, ⟨0⟩⟩, .generated [] 0⟩).2
    Vault.SameButJournal v served.vault ∧ served.vault.servedNonce = none := by
  intro session v r served
  have hfailure : (Operation.run (.serve ⟨.zeros 16, .ofSeconds 0⟩ r)
      ⟨v, ⟨.ofSeconds 0, ⟨0⟩⟩, .generated [] 0⟩).1.isFailure = true := by
    decide +kernel
  obtain ⟨hsame, -⟩ := Operation.run_of_isFailure _ _ hfailure
  have hserved : Vault.SameButJournal v served.vault := hsame nofun
  refine ⟨hserved, ?_⟩
  rw [hserved]
  rfl

end QuorumVault
