import Mathlib.Tactic
import QuorumVault.Proofs.Token.Backing

/-!
# What it means that a token is accepted

Whatever an issuer accepts from memory, it would accept for its text just now, and the value that it
gives is one that a transform returned for the payload of the token (`Desk.accepts_sound`).
-/

namespace QuorumVault.Desk

variable {ι : Type} {β : ι → Type} {policy : TokenPolicy} {presented : Set TokenHandle}
  {texts : Set String} {t : TokenHandle} {i : ι} {installation : Installation} {clock : Clock}
  {rng : Entropy} {w x : Desk β}

namespace Backed

theorem verify_of_valid (hw : Backed policy presented w)
    (hpresented : presented.InjOn TokenHandle.digest) (ht : t ∈ presented)
    (h : (w.valid t).1 = true) :
    ∃ installation verified, w.issuer.installed = some installation ∧
      Token.verify installation.keys t.text w.clock.wall policy.maxAge = .ok verified := by
  unfold Desk.valid at h
  rcases Issuer.valid_cases w.clock t w.issuer with
    ⟨-, hvalid⟩ | ⟨installation, hinstalled, ⟨-, hvalid⟩ | ⟨-, ⟨payload, b, hserves, -, hvalid⟩ |
      ⟨verified, b, hverify, -, hvalid⟩ | ⟨_, _, -, -, hvalid⟩⟩⟩
  · rw [hvalid] at h
    cases h
  · rw [hvalid] at h
    cases h
  · obtain ⟨r, -, installation', issuedAt, hinstalled', hdecode, -⟩ :=
      hw.decode_of_serves hpresented ht hserves
    obtain ⟨verified, hverify⟩ := Token.exists_verify_of_decode hdecode
    exact ⟨installation', verified, hinstalled', hverify⟩
  · rw [hw.maxAge] at hverify
    exact ⟨installation, verified, hinstalled, hverify⟩
  · rw [hvalid] at h
    cases h

variable [DecidableEq ι]

theorem decode_of_validate {transform : Bytes → Desk β → Option (β i) × Desk β}
    {value : β i} (hw : Backed policy presented w)
    (hpresented : presented.InjOn TokenHandle.digest) (ht : t ∈ presented)
    (hacts : Acts presented transform (w.enter t i))
    (h : (w.validate t i transform).1 = some value) :
    ∃ installation token, w.issuer.installed = some installation ∧
      (w.validate t i transform).2.issuer.installed = some installation ∧
      Token.decode installation.keys t.text w.clock.wall policy.maxAge = .ok token ∧
      ((transform token.payload (w.enter t i)).1 = some value ∨
        ∃ r ∈ w.returns, r.call.handle = t ∧ r.call.issuer.installed = some installation ∧
          r.payload = token.payload ∧ r.value = ⟨i, value⟩ ∧
          w.clock.running.nanos - r.clock.running.nanos < policy.cappedTtl.nanos) := by
  rcases validate_cases t i transform w with
    ⟨-, hnone⟩ | ⟨installation, hinstalled, ⟨-, hnone⟩ | ⟨served, hserves, hvalidate⟩ |
      ⟨-, -, hnone⟩ | ⟨token, hdecode, hvalidate⟩⟩
  · rw [hnone] at h
    cases h
  · rw [hnone] at h
    cases h
  · rw [hvalidate] at h ⊢
    cases h
    obtain ⟨r, hr, installation, issuedAt, hinstalled, hdecode, hrest⟩ :=
      hw.decode_of_serves hpresented ht hserves
    obtain ⟨hcall, hhandle, hvalue, hlive⟩ := hrest
    exact ⟨installation, _, hinstalled, (enter_installed t i w).trans hinstalled, hdecode,
      .inr ⟨r, hr, hhandle, hcall, rfl, hvalue, hlive⟩⟩
  · rw [hnone] at h
    cases h
  · rw [hvalidate] at h ⊢
    rw [hw.maxAge] at hdecode
    rcases leave_cases (w.call t (some i)) installation.serial token
      (transform token.payload (w.enter t i)).1 (transform token.payload (w.enter t i)).2 with
      ⟨v, hreturned, hcurrent, hv⟩ | ⟨-, hnone, -⟩
    · rw [hv] at h
      cases h
      have hstill := (hw.isCurrent_iff hinstalled (hacts token.payload)).mp hcurrent
      exact ⟨installation, token, hinstalled, (leave_installed _ _ _ _ _).trans hstill, hdecode,
        .inl hreturned⟩
    · rw [hnone] at h
      cases h

/-- After keys are installed or cleared, whatever is in place is newer than what was recorded. -/
theorem installed_ne (hw : Backed policy presented w)
    (hx : Reaches presented w.clear x ∨ ∃ master, Reaches presented (w.install master) x)
    {r : Return β} (hr : r ∈ w.returns) : r.call.issuer.installed ≠ x.issuer.installed := by
  obtain ⟨-, installation, issuedAt, hopens, hserial⟩ := hw.returns r hr
  have hnewer : ∀ i, x.issuer.installed = some i → w.issuer.installations ≤ i.serial := by
    rcases hx with hx | ⟨master, hx⟩
    · refine hx.follows.le_serial le_rfl fun i hi => ?_
      cases hi
    · refine hx.follows.le_serial (Nat.le_succ _) fun i hi => ?_
      cases hi
      exact le_rfl
  intro heq
  have hle := hnewer installation (heq ▸ hopens.installed)
  omega

end Backed

variable [DecidableEq ι]

/-- **Sound acceptance.**  Let tokens be presented whose texts have different digests.  A token that
is called valid is verified, just now and under the keys that are installed.  If a validation gives
a value then the token is decoded, just now and under the keys that are installed before and after;
the value is what the transform returned for its payload, or what another transform returned for it
in a validation of the same text under the same installation, less than the lifetime of verdicts
ago.  After keys are installed or cleared, nothing that was recorded before belongs to the
installation that is in place. -/
theorem accepts_sound (policy : TokenPolicy)
    (htexts : texts.InjOn fun text => Sha256.digest (Bytes.ofText text))
    (hw : Reaches (TokenHandle.ofText '' texts) (ofPolicy policy clock rng) w) :
    (∀ text ∈ texts, (w.valid (.ofText text)).1 = true →
      ∃ installation verified, w.issuer.installed = some installation ∧
        Token.verify installation.keys text w.clock.wall policy.maxAge = .ok verified) ∧
    (∀ text ∈ texts, ∀ i transform value,
      Acts (TokenHandle.ofText '' texts) transform (w.enter (.ofText text) i) →
      (w.validate (.ofText text) i transform).1 = some value →
        ∃ installation token, w.issuer.installed = some installation ∧
          (w.validate (.ofText text) i transform).2.issuer.installed = some installation ∧
          Token.decode installation.keys text w.clock.wall policy.maxAge = .ok token ∧
          ((transform token.payload (w.enter (.ofText text) i)).1 = some value ∨
            ∃ r ∈ w.returns, r.call.handle = .ofText text ∧
              r.call.issuer.installed = some installation ∧ r.payload = token.payload ∧
              r.value = ⟨i, value⟩ ∧
              w.clock.running.nanos - r.clock.running.nanos < policy.cappedTtl.nanos)) ∧
    ∀ x, (Reaches (TokenHandle.ofText '' texts) w.clear x ∨
        ∃ master, Reaches (TokenHandle.ofText '' texts) (w.install master) x) →
      ∀ r ∈ w.returns, r.call.issuer.installed ≠ x.issuer.installed := by
  have hpresented := injOn_digest_image htexts
  have hbacked := hw.backed hpresented (.ofPolicy policy _ clock rng)
  refine ⟨fun text htext => ?_, fun text htext i transform value => ?_, fun x hx r => ?_⟩
  · exact hbacked.verify_of_valid hpresented (Set.mem_image_of_mem _ htext)
  · exact hbacked.decode_of_validate hpresented (Set.mem_image_of_mem _ htext)
  · exact hbacked.installed_ne hx

/-- A token is validated under keys that have just been installed, and so it is decoded.  A second
later it is called valid, and its payload is given although the transform would give nothing: it is
the one that was returned before.  What was returned belongs to no keys that are installed later,
even if they are the same ones. -/
theorem accepts_sound_of_remembered :
    let start : Desk fun _ : Unit => Bytes :=
      ofPolicy .standard ⟨.ofSeconds 0, ⟨0⟩⟩ (.generated [] 0)
    let w := start.install ⟨.zeros 32⟩
    let same payload (z : Desk fun _ : Unit => Bytes) := (some payload, z)
    let nothing (_ : Bytes) (z : Desk fun _ : Unit => Bytes) := ((none : Option Bytes), z)
    ∃ text, (w.validate (.ofText text) () same).1 = some [7] ∧
      (∃ installation token, w.issuer.installed = some installation ∧
        Token.decode installation.keys text (.ofSeconds 0) none = .ok token ∧
        token.payload = [7]) ∧
      let x := { (w.validate (.ofText text) () same).2 with
        clock := ⟨.ofSeconds 5, .ofSeconds 1⟩ }
      (x.valid (.ofText text)).1 = true ∧
      (x.validate (.ofText text) () nothing).1 = some [7] ∧
      (∃ installation verified token, x.issuer.installed = some installation ∧
        Token.verify installation.keys text (.ofSeconds 5) none = .ok verified ∧
        Token.decode installation.keys text (.ofSeconds 5) none = .ok token ∧
        ∃ r ∈ x.returns, r.call.issuer.installed = some installation ∧
          r.payload = token.payload ∧ r.value = ⟨(), [7]⟩) ∧
      ∀ r ∈ x.returns, r.call.issuer.installed ≠ (x.install ⟨.zeros 32⟩).issuer.installed := by
  intro start w same nothing
  obtain ⟨text, htext⟩ : ∃ text,
      Token.Writes (.derive ⟨.zeros 32⟩) [7] (.ofSeconds 0) (.zeros 16) text :=
    Token.exists_writes_iff.mpr (by decide)
  have hcal : (Timestamp.ofSeconds 0).IsCalendarSecond := ⟨rfl, by decide, by decide⟩
  have hpresent : w.issuer.present w.clock (.ofText text) () = _ :=
    Issuer.present_install_of_decode () (Token.decode_of_writes htext hcal rfl)
  have hdecoded := congrArg Prod.fst hpresent
  have henter : (w.enter (.ofText text) ()).issuer = w.issuer := congrArg Prod.snd hpresent
  obtain ⟨z, -, hclock, hvalidate⟩ := validate_of_decoded same hdecoded rfl
  rw [henter] at hvalidate
  have hfirst : (w.validate (.ofText text) () same).1 = some [7] := by
    rw [hvalidate]
    rfl
  -- within the lifetime of verdicts the token is not decoded again
  have hlive : (Duration.ofSeconds 1).nanos - 0 < w.issuer.validated.ttl.nanos := by decide
  obtain ⟨hvalid, hgiven⟩ := validate_of_settled hdecoded
    (show same [7] (w.enter (.ofText text) ()) = (some [7], _) from rfl) (by rw [henter]; rfl)
    ⟨.ofSeconds 5, .ofSeconds 1⟩ (by rw [henter]; rfl) (by rw [henter]; exact hlive)
    (by rw [henter]; exact Token.checkAge_none_of_le (by decide))
  rw [hvalidate] at hvalid hgiven
  have hw : Reaches (TokenHandle.ofText '' {text}) start w := (Reaches.refl start).install _
  have hz := hw.validate (Set.mem_image_of_mem _ (Set.mem_singleton text))
    (show Acts _ same (w.enter _ ()) from fun payload => .refl _)
  rw [hvalidate] at hz
  have hx : Reaches (TokenHandle.ofText '' {text}) start
      { z with clock := ⟨.ofSeconds 5, .ofSeconds 1⟩ } :=
    hz.elsewhere _ _ (by rw [hclock]; exact Nat.zero_le _)
  obtain ⟨-, hfresh, -⟩ := accepts_sound .standard (Set.injOn_singleton _ _) hw
  obtain ⟨hverified, hremembered, hnewer⟩ := accepts_sound .standard (Set.injOn_singleton _ _) hx
  refine ⟨text, hfirst, ?_, ?_⟩
  · obtain ⟨installation, token, hinstalled, -, hdecode, hreturned | ⟨r, hr, -⟩⟩ :=
      hfresh text rfl () same _ (fun payload => .refl _) hfirst
    · exact ⟨installation, token, hinstalled, hdecode, Option.some.inj hreturned⟩
    · cases hr
  · rw [hvalidate]
    refine ⟨hvalid, hgiven nothing, ?_, hnewer _ (.inr ⟨⟨.zeros 32⟩, .refl _⟩)⟩
    obtain ⟨installation, verified, hinstalled, hverify⟩ := hverified text rfl hvalid
    obtain ⟨installation', token, hsame, -, hdecode, hreturned⟩ :=
      hremembered text rfl () nothing _ (fun payload => .refl _) (hgiven nothing)
    cases hinstalled.symm.trans hsame
    rcases hreturned with hnothing | ⟨r, hr, -, hcall, hpayload, hvalue, -⟩
    · cases hnothing
    · exact ⟨installation, verified, token, hinstalled, hverify, hdecode, r, hr, hcall, hpayload,
        hvalue⟩

end QuorumVault.Desk
