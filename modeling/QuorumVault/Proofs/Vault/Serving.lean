import Mathlib.Tactic
import QuorumVault.Proofs.Vault.History

/-!
# Handing the master key over once

Between two seals a vault hands its master key over at most once, to the first request that its
policy accepts and for which an answer can be packed; requests that are refused, that cannot be
answered or that come while the vault is not unsealed do not count (`serve_once`).  The one call
that counts without an answer is one that breaks off because no private key can be drawn for it.

The invariant is `Served`: the vault knows of a request that it has answered exactly if there was
such a call since the last seal.
-/

namespace QuorumVault

/-! ### Policies -/

/-- A policy refuses for want of an attestation only. -/
theorem Policy.exists_attestation_of_check {policy : Policy} {r : KeyRequest} {refusal : Refusal}
    (h : policy.check r = .error refusal) : ∃ reason, refusal = .attestation reason := by
  unfold check at h
  split at h
  · cases h
  · split at h
    · cases h
      exact ⟨_, rfl⟩
    · split at h
      · cases h
        exact ⟨_, rfl⟩
      · cases h
      · cases h
        exact ⟨_, rfl⟩

/-- A policy that verifies accepts a request exactly if its signature is verified over its own
public key and nonce. -/
theorem Policy.check_verify_eq_ok_iff {verifier : Identity} {threshold : ℕ} {r : KeyRequest} :
    (Policy.verify verifier threshold).check r = .ok () ↔
      ∃ signature, r.signature = some signature ∧
        verifier.verify threshold signature r.payload = .ok true := by
  unfold check
  cases hsignature : r.signature with
  | none => simp
  | some signature =>
    rcases hverify : verifier.verify threshold signature r.payload with fault | (_ | _)
    · simp [hverify]
    · simp [hverify]
    · simp [hverify]

/-- What is signed determines the public key and the nonce. -/
theorem KeyRequest.eq_of_payload_eq {r r' : KeyRequest} (h : r.payload = r'.payload) :
    r.sessionKey = r'.sessionKey ∧ r.nonce = r'.nonce := by
  have hlength : r.sessionKey.octets.toList.length = r'.sessionKey.octets.toList.length := by
    rw [r.sessionKey.octets.length_toList, r'.sessionKey.octets.length_toList]
  obtain ⟨hkey, hnonce⟩ := List.append_inj h hlength
  constructor
  · exact congrArg PublicKey.mk (Octets.ext hkey)
  · exact congrArg Nonce.mk (Octets.ext hnonce)

/-! ### Calls that count -/

/-- The master key is handed over with the answer. -/
def Answer.handsOver : Answer → Bool
  | served (.ok bundle) => !bundle.isEmpty
  | _ => false

/-- There is no answer to a request, for want of a private key. -/
def Answer.breaksOff : Answer → Bool
  | served (.error .exhausted) => true
  | _ => false

namespace Deed

variable {ι : Type} {β : ι → Type}

def handsOver : Deed β → Bool
  | call w o => (o.run w).1.handsOver
  | present _ _ _ => false

def breaksOff : Deed β → Bool
  | call w o => (o.run w).1.breaksOff
  | present _ _ _ => false

/-- In the first run nothing is handed over. -/
theorem handsOver_of_mem_first {β : ι → Type} {bundle : Envelope} {w : World β} {d : Deed β}
    (htake : (Operation.takeOver .blank bundle).run (.asking β) = (.takenOver (.ok ()), w))
    (hd : d ∈ first β bundle) : d.handsOver = false ∧ d.breaksOff = false := by
  simp only [first, List.mem_cons, List.not_mem_nil, or_false] at hd
  rcases hd with rfl | rfl | rfl
  · rw [handsOver, breaksOff, htake]
    exact ⟨rfl, rfl⟩
  · exact ⟨rfl, rfl⟩
  · exact ⟨rfl, rfl⟩

end Deed

variable {ι : Type} {β : ι → Type} {v u : Vault β} {w : World β} {deeds : List (Deed β)}

/-- What an operation does to the request that is known to have been answered. -/
theorem Outcome.served_cases {o : Operation} {a : Answer} {entry : Option Entry}
    (h : Outcome v o a entry u) :
    (o.isSeal = true ∧ u.servedNonce = none) ∨
    (o.isSeal = false ∧ a.handsOver = true ∧ v.servedNonce = none ∧ u.servedNonce.isSome = true) ∨
    (o.isSeal = false ∧ a.handsOver = false ∧ a.breaksOff = true ∧ u.servedNonce.isSome = true) ∨
    (o.isSeal = false ∧ a.handsOver = false ∧ a.breaksOff = false ∧
      u.servedNonce = v.servedNonce) := by
  cases h with
  | sealOff => exact .inl ⟨rfl, rfl⟩
  | @serve stamp r session masterKey bundle rng rng' hphase hserved hpack =>
    have hbundle := Envelope.isEmpty_of_pack hpack
    have hover : (Answer.served (.ok bundle)).handsOver = true := by
      rw [Answer.handsOver, hbundle]
      rfl
    exact .inr (.inl ⟨rfl, hover, hserved, rfl⟩)
  | breakOff hphase hserved => exact .inr (.inr (.inl ⟨rfl, rfl, rfl, rfl⟩))
  | _ => exact .inr (.inr (.inr ⟨rfl, rfl, rfl, rfl⟩))

/-! ### The invariant -/

/-- What a vault knows of requests that it has answered is right. -/
structure Served (deeds : List (Deed β)) (v : Vault β) : Prop where
  isSome_iff : v.servedNonce.isSome = true ↔
    ∃ d ∈ Deed.since Deed.isSeal deeds, d.handsOver = true ∨ d.breaksOff = true
  count_le : (Deed.since Deed.isSeal deeds).countP Deed.handsOver ≤ 1

namespace Served

variable {d : Deed β}

theorem of_since_eq_nil (hsince : Deed.since Deed.isSeal deeds = []) (hv : v.servedNonce = none) :
    Served deeds v := by
  constructor
  · rw [hv, hsince]
    simp
  · rw [hsince]
    exact Nat.zero_le 1

theorem cons (h : Served deeds v) (hd : d.isSeal = false) (hover : d.handsOver = true)
    (hv : v.servedNonce = none) (hu : u.servedNonce.isSome = true) : Served (d :: deeds) u := by
  have hsince := Deed.since_cons_of_eq_false hd deeds
  constructor
  · rw [hsince, hu]
    exact iff_of_true rfl ⟨d, List.mem_cons_self, .inl hover⟩
  · -- no call before has handed the master key over, or the vault would know
    have hnone : (Deed.since Deed.isSeal deeds).countP Deed.handsOver = 0 := by
      rw [List.countP_eq_zero]
      intro e he hover'
      have hsome := h.isSome_iff.mpr ⟨e, he, .inl hover'⟩
      rw [hv] at hsome
      cases hsome
    rw [hsince, List.countP_cons, hnone, if_pos hover]

/-- A deed that hands nothing over. -/
theorem cons_of_not (h : Served deeds v) (hd : d.isSeal = false) (hover : d.handsOver = false)
    (hu : d.breaksOff = true ∧ u.servedNonce.isSome = true ∨
      d.breaksOff = false ∧ u.servedNonce = v.servedNonce) :
    Served (d :: deeds) u := by
  have hsince := Deed.since_cons_of_eq_false hd deeds
  constructor
  · rw [hsince]
    rcases hu with ⟨hbreak, hsome⟩ | ⟨hbreak, hsame⟩
    · rw [hsome]
      exact iff_of_true rfl ⟨d, List.mem_cons_self, .inr hbreak⟩
    · rw [hsame, h.isSome_iff]
      simp only [List.mem_cons, exists_eq_or_imp, hover, hbreak, Bool.false_eq_true, or_self,
        false_or]
  · rw [hsince, List.countP_cons, hover]
    simpa using h.count_le

/-- Every operation keeps the invariant. -/
theorem call {o : Operation} {entry : Option Entry} (h : Served deeds w.vault)
    (houtcome : Outcome w.vault o (o.run w).1 entry u) : Served (.call w o :: deeds) u := by
  rcases houtcome.served_cases with ⟨hseal, hnone⟩ | ⟨hseal, hover, hnone, hsome⟩ |
    ⟨hseal, hover, hbreak, hsome⟩ | ⟨hseal, hover, hbreak, hsame⟩
  · exact of_since_eq_nil (Deed.since_cons_of_eq_true (d := .call w o) hseal deeds) hnone
  · exact h.cons (d := .call w o) hseal hover hnone hsome
  · exact h.cons_of_not (d := .call w o) hseal hover (.inl ⟨hbreak, hsome⟩)
  · exact h.cons_of_not (d := .call w o) hseal hover (.inr ⟨hbreak, hsame⟩)

theorem of_servedNonce_eq (h : Served deeds v) (hu : u.servedNonce = v.servedNonce) :
    Served deeds u := by
  refine ⟨?_, h.count_le⟩
  rw [hu]
  exact h.isSome_iff

end Served

theorem History.served [DecidableEq ι] {start : World β} (hstart : start.vault.servedNonce = none)
    (h : History start deeds w) : Served deeds w.vault := by
  refine h.induct (motive := Served) ?_ ?_ ?_ ?_
  · exact Served.of_since_eq_nil rfl hstart
  · intro deeds w o entry u houtcome _ hserved
    exact (hserved.call houtcome).of_servedNonce_eq (Vault.servedNonce_logged entry u)
  · intro deeds w t i hserved
    exact hserved.cons_of_not (d := .present w t i) rfl rfl (.inr ⟨rfl, rfl⟩)
  · intro deeds v issuer hserved
    exact hserved.of_servedNonce_eq rfl

/-! ### Single use -/

namespace Vault

/-- A vault that has answered a request hands nothing over. -/
theorem serve_of_servedNonce {session : KeyPair} {masterKey : SecretKey} {nonce : Nonce}
    (stamp : Stamp) (r : KeyRequest) (rng : Entropy)
    (hphase : v.phase = .unsealed session masterKey) (hserved : v.servedNonce = some nonce) :
    (v.serve stamp r rng).1 =
      match v.policy.check r with
      | .ok () => .ok .empty
      | .error refusal => .error (.fault refusal) := by
  rw [serve, hphase]
  cases v.policy.check r with
  | error refusal => rfl
  | ok => simp only [hserved]

/-- Only a request that the policy accepts is answered with the master key. -/
theorem check_of_serve {stamp : Stamp} {r : KeyRequest} {rng : Entropy} {bundle : Envelope}
    (h : (v.serve stamp r rng).1 = .ok bundle) (hbundle : bundle.isEmpty = false) :
    v.policy.check r = .ok () := by
  rcases serve_cases stamp r v rng with
    ⟨session, masterKey, bundle', rng', -, hpolicy, -⟩ | ⟨session, masterKey, rng', -, hserve⟩ |
      ⟨hempty, -⟩
  · exact hpolicy
  · rw [hserve] at h
    cases h
  · rw [hempty bundle h] at hbundle
    cases hbundle

end Vault

/-- **Single use.**  Let a vault run from its making on.  Since it was last sealed it has handed its
master key over at most once.  If it has, then every request that its policy accepts gets an empty
answer, and every other one is refused for its attestation.  If it has not, and if no call was
broken off for want of a private key, then the next request that the policy accepts and for which
an answer can be packed is answered with the master key.  A policy that verifies signatures hands
the master key only to a request whose own public key and nonce are signed, and what is signed
determines these two. -/
theorem History.serve_once [DecidableEq ι] {settings : Settings} {policy : Policy}
    {identity : Option Identity} {v : Vault β} {clock : Clock} {rng : Entropy}
    (hv : Vault.ofSettings? settings policy identity = .ok v)
    (h : History ⟨v, clock, rng⟩ deeds w) :
    (Deed.since Deed.isSeal deeds).countP Deed.handsOver ≤ 1 ∧
    ((∃ d ∈ Deed.since Deed.isSeal deeds, d.handsOver = true) → ∀ stamp r rng,
      (policy.check r = .ok () → (w.vault.serve stamp r rng).1 = .ok .empty) ∧
      ∀ refusal, policy.check r = .error refusal →
        (w.vault.serve stamp r rng).1 = .error (.fault refusal) ∧
          refusal.code = "attestation_rejected") ∧
    ((∀ d ∈ Deed.since Deed.isSeal deeds, d.handsOver = false ∧ d.breaksOff = false) →
      ∀ session masterKey, w.vault.phase = .unsealed session masterKey →
      ∀ stamp r rng bundle rng', policy.check r = .ok () →
        Envelope.pack settings.suite r.sessionKey r.nonce.toBytes masterKey.toBytes rng =
          (.ok bundle, rng') →
        (w.vault.serve stamp r rng).1 = .ok bundle ∧ bundle.isEmpty = false) ∧
    (∀ verifier threshold, policy = .verify verifier threshold →
      ∀ stamp r rng bundle, (w.vault.serve stamp r rng).1 = .ok bundle → bundle.isEmpty = false →
        ∃ signature, r.signature = some signature ∧
          verifier.verify threshold signature
            (r.sessionKey.octets.toList ++ r.nonce.toBytes) = .ok true) ∧
    ∀ r r' : KeyRequest, r.payload = r'.payload →
      r.sessionKey = r'.sessionKey ∧ r.nonce = r'.nonce := by
  have hsound := h.sound hv
  have hsettings : w.vault.settings = settings := hsound.settings_eq
  have hpolicy : w.vault.policy = policy := hsound.policy_eq
  obtain ⟨-, rfl⟩ := Vault.ofSettings?_eq_ok_iff.mp hv
  have hserved : Served deeds w.vault := h.served rfl
  refine ⟨hserved.count_le, ?_, ?_, ?_, fun r r' => KeyRequest.eq_of_payload_eq⟩
  · rintro ⟨d, hd, hover⟩ stamp r rng
    have hsome := hserved.isSome_iff.mpr ⟨d, hd, .inl hover⟩
    obtain ⟨nonce, hnonce⟩ := Option.isSome_iff_exists.mp hsome
    -- a vault that has answered a request is unsealed
    obtain ⟨session, masterKey, hphase⟩ :
        ∃ session masterKey, w.vault.phase = .unsealed session masterKey := by
      cases hphase : w.vault.phase with
      | unsealed session masterKey => exact ⟨session, masterKey, rfl⟩
      | sealed =>
        have hnone := hsound.servedNonce_eq (by rw [hphase]; rfl)
        rw [hnonce] at hnone
        cases hnone
      | unsealing session =>
        have hnone := hsound.servedNonce_eq (by rw [hphase]; rfl)
        rw [hnonce] at hnone
        cases hnone
    have hserve := Vault.serve_of_servedNonce stamp r rng hphase hnonce
    rw [hpolicy] at hserve
    constructor
    · intro hcheck
      rw [hserve, hcheck]
    · intro refusal hcheck
      obtain ⟨reason, rfl⟩ := Policy.exists_attestation_of_check hcheck
      refine ⟨?_, rfl⟩
      rw [hserve, hcheck]
  · intro hnone session masterKey hphase stamp r rng bundle rng' hcheck hpack
    have hfree : w.vault.servedNonce = none := by
      cases hnonce : w.vault.servedNonce with
      | none => rfl
      | some nonce =>
        obtain ⟨d, hd, hdone⟩ := hserved.isSome_iff.mp (by rw [hnonce]; rfl)
        obtain ⟨hover, hbreak⟩ := hnone d hd
        rw [hover, hbreak] at hdone
        rcases hdone with hdone | hdone
        · cases hdone
        · cases hdone
    have hcheck' : w.vault.policy.check r = .ok () := by rw [hpolicy, hcheck]
    refine ⟨?_, Envelope.isEmpty_of_pack hpack⟩
    rw [Vault.serve_of_unsealed stamp rng hphase hcheck' hfree, hsettings, hpack]
  · rintro verifier threshold rfl stamp r rng bundle hserve hbundle
    have hcheck := Vault.check_of_serve hserve hbundle
    rw [hpolicy] at hcheck
    exact Policy.check_verify_eq_ok_iff.mp hcheck

/-- A vault that has come by the master key answers the first request, and gives the second one an
empty answer. -/
theorem History.serve_once_of_takeOver :
    ∃ (w : World fun _ : Unit => Unit) (deeds : List (Deed fun _ : Unit => Unit)) (r : KeyRequest)
      (bundle : Envelope), History (.blank _) deeds w ∧ deeds.length = 4 ∧
        ((Operation.serve .blank r).run w).1 = .served (.ok bundle) ∧ bundle.isEmpty = false ∧
          ((Operation.serve .blank r).run ((Operation.serve .blank r).run w).2).1 =
            .served (.ok .empty) := by
  let start : World fun _ : Unit => Unit := .blank _
  let r := World.asked
  obtain ⟨bundle, session, rng, rng', hpack, htake⟩ :=
    World.exists_run_takeOver_asking (fun _ : Unit => Unit) ⟨.zeros 32⟩
  let w : World fun _ : Unit => Unit := { World.taken _ session ⟨.zeros 32⟩ with rng := rng }
  -- a request that comes before the vault is unsealed does not count
  have hearly : History start [.call start (.serve .blank r)] start :=
    History.refl.call (.serve .blank r)
  let deeds : List (Deed fun _ : Unit => Unit) :=
    Deed.first _ bundle ++ [.call start (.serve .blank r)]
  have hw : History start deeds w := (hearly.taken htake).elsewhere start.clock rng
  have hv : Vault.ofSettings? .standard .alwaysAccept none = .ok start.vault := rfl
  have hnone : ∀ d ∈ Deed.since Deed.isSeal deeds, d.handsOver = false ∧ d.breaksOff = false := by
    intro d hd
    rcases List.mem_append.mp (List.takeWhile_subset _ hd) with hd | hd
    · exact Deed.handsOver_of_mem_first htake hd
    · rw [List.mem_singleton.mp hd]
      exact ⟨rfl, rfl⟩
  obtain ⟨-, -, hfirst, -, -⟩ := hw.serve_once hv
  obtain ⟨hserve, hbundle⟩ :=
    hfirst hnone session ⟨.zeros 32⟩ rfl .blank r rng bundle rng' rfl hpack
  have hanswer : ((Operation.serve .blank r).run w).1 = .served (.ok bundle) :=
    congrArg Answer.served hserve
  have hover : ∃ d ∈ Deed.since Deed.isSeal (.call w (.serve .blank r) :: deeds),
      d.handsOver = true := by
    refine ⟨_, List.mem_cons_self, ?_⟩
    rw [Deed.handsOver, hanswer, Answer.handsOver, hbundle]
    rfl
  obtain ⟨-, hagain, -⟩ := (hw.call (.serve .blank r)).serve_once hv
  exact ⟨w, deeds, r, bundle, hw, rfl, hanswer, hbundle,
    congrArg Answer.served ((hagain hover _ _ _).1 rfl)⟩

end QuorumVault
