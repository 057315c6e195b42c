import Mathlib.Tactic
import QuorumVault.Proofs.Token.Desk

/-!
# What stands behind a verdict

Every verdict that an issuer remembers goes back to something that happened under the keys that are
still installed: an accepted token to a value that a transform returned for its payload, a refused
one to a call that failed.  This is the invariant `Desk.Backed`.  Caches are looked up by digest;
that the digest leads back to the right token is where the tokens presented must have different
digests (`Desk.Reaches.backed`).
-/

namespace QuorumVault.Desk

variable {ι : Type} {β : ι → Type} {policy : TokenPolicy} {presented : Set TokenHandle}
  {t : TokenHandle} {i : ι} {purpose : Option ι} {w x y : Desk β}

/-- Handles that are made of texts with different digests have different digests. -/
theorem injOn_digest_image {texts : Set String}
    (h : texts.InjOn fun text => Sha256.digest (Bytes.ofText text)) :
    (TokenHandle.ofText '' texts).InjOn TokenHandle.digest := by
  rintro _ ⟨a, ha, rfl⟩ _ ⟨b, hb, rfl⟩ hab
  rw [h ha hb hab]

/-- The value was returned for what the token decoded to under the keys of the installation. -/
structure Return.Opens (maxAge : Option Duration) (installation : Installation)
    (issuedAt : Timestamp) (r : Return β) : Prop where
  installed : r.call.issuer.installed = some installation
  decode : Token.decode installation.keys r.call.handle.text r.call.clock.wall maxAge =
    .ok ⟨issuedAt, r.payload⟩

/-- Behind every verdict stands what the record says. -/
structure Backed (policy : TokenPolicy) (presented : Set TokenHandle) (w : Desk β) : Prop where
  maxAge : w.issuer.maxAge = policy.maxAge
  validatedTtl : w.issuer.validated.ttl = policy.cappedTtl
  rejectedTtl : w.issuer.rejected.ttl = policy.rejectedTtl
  serial_lt : ∀ installation, w.issuer.installed = some installation →
    installation.serial < w.issuer.installations
  calls : ∀ c ∈ w.calls, c.handle ∈ presented ∧ c.clock.running.nanos ≤ w.clock.running.nanos
  returns : ∀ r ∈ w.returns, r.call ∈ w.calls ∧ ∃ installation issuedAt,
    r.Opens policy.maxAge installation issuedAt ∧ installation.serial < w.issuer.installations
  validated : ∀ e ∈ w.issuer.validated.entries, ∃ r ∈ w.returns, ∃ installation,
    r.Opens policy.maxAge installation e.value.issuedAt ∧
      w.issuer.installed = some installation ∧ r.call.handle.digest = e.key ∧
      r.value = e.value.payload ∧ r.clock.running = e.putAt
  rejected : ∀ e ∈ w.issuer.rejected.entries, ∃ c ∈ w.calls, c.Fails ∧
    c.issuer.installed = w.issuer.installed ∧ c.handle.digest = e.key ∧
    c.clock.running = e.putAt

namespace Backed

theorem ofPolicy (policy : TokenPolicy) (presented : Set TokenHandle) (clock : Clock)
    (rng : Entropy) : Backed policy presented (.ofPolicy policy clock rng : Desk β) where
  maxAge := rfl
  validatedTtl := rfl
  rejectedTtl := rfl
  serial_lt _ h := by cases h
  calls _ h := by cases h
  returns _ h := by cases h
  validated _ h := by cases h
  rejected _ h := by cases h

/-! ### What a remembered verdict says -/

/-- What is remembered of an accepted token is a value that was returned for this token, under the
keys that are installed and less than the lifetime of verdicts ago. -/
theorem of_remembers {verdict : Verdict β} (hw : Backed policy presented w)
    (hpresented : presented.InjOn TokenHandle.digest) (ht : t ∈ presented)
    (h : w.issuer.Remembers w.clock t verdict) :
    ∃ r ∈ w.returns, ∃ installation, r.Opens policy.maxAge installation verdict.issuedAt ∧
      w.issuer.installed = some installation ∧ r.call.handle = t ∧ r.value = verdict.payload ∧
      w.clock.running.nanos - r.clock.running.nanos < policy.cappedTtl.nanos := by
  obtain ⟨e, he, hkey, rfl, hlive⟩ := h
  obtain ⟨r, hr, installation, hopens, hinstalled, hdigest, hvalue, hputAt⟩ := hw.validated e he
  have hhandle := (hw.calls _ (hw.returns r hr).1).1
  rw [TimedCache.isLive_iff, hw.validatedTtl, ← hputAt] at hlive
  exact ⟨r, hr, installation, hopens, hinstalled,
    hpresented hhandle ht (hdigest.trans hkey), hvalue, hlive⟩

/-- A token on which a verdict has aged out is refused for its text as well. -/
theorem verify_of_agedOut {installation : Installation} (hw : Backed policy presented w)
    (hpresented : presented.InjOn TokenHandle.digest) (ht : t ∈ presented)
    (hinstalled : w.issuer.installed = some installation) (h : w.issuer.AgedOut w.clock t) :
    ∃ fault, Token.verify installation.keys t.text w.clock.wall w.issuer.maxAge =
      .error fault := by
  obtain ⟨verdict, fault, hremembers, hage⟩ := h
  obtain ⟨r, -, installation', hopens, hinstalled', rfl, -⟩ :=
    hw.of_remembers hpresented ht hremembers
  rw [hinstalled] at hinstalled'
  cases hinstalled'
  rw [hw.maxAge] at hage ⊢
  exact Token.verify_of_checkAge_eq_error hopens.decode hage

/-- A token of which a payload is served is decoded, and to the payload for which the value was
returned. -/
theorem decode_of_serves {payload : Sigma β} (hw : Backed policy presented w)
    (hpresented : presented.InjOn TokenHandle.digest) (ht : t ∈ presented)
    (h : w.issuer.Serves w.clock t payload) :
    ∃ r ∈ w.returns, ∃ installation issuedAt, w.issuer.installed = some installation ∧
      Token.decode installation.keys t.text w.clock.wall policy.maxAge =
        .ok ⟨issuedAt, r.payload⟩ ∧
      r.call.issuer.installed = some installation ∧ r.call.handle = t ∧ r.value = payload ∧
      w.clock.running.nanos - r.clock.running.nanos < policy.cappedTtl.nanos := by
  obtain ⟨verdict, hremembers, hage, rfl⟩ := h
  obtain ⟨r, hr, installation, hopens, hinstalled, rfl, hvalue, hlive⟩ :=
    hw.of_remembers hpresented ht hremembers
  rw [hw.maxAge] at hage
  exact ⟨r, hr, installation, _, hinstalled, Token.decode_of_checkAge hopens.decode hage,
    hopens.installed, rfl, hvalue, hlive⟩

/-! ### Steps -/

theorem elsewhere {clock : Clock} (rng : Entropy) (hw : Backed policy presented w)
    (hclock : w.clock.running.nanos ≤ clock.running.nanos) :
    Backed policy presented { w with clock := clock, rng := rng } :=
  { hw with calls := fun c hc => ⟨(hw.calls c hc).1, (hw.calls c hc).2.trans hclock⟩ }

theorem install (master : SecretKey) (hw : Backed policy presented w) :
    Backed policy presented (w.install master) where
  maxAge := hw.maxAge
  validatedTtl := hw.validatedTtl
  rejectedTtl := hw.rejectedTtl
  serial_lt _ h := by
    cases h
    exact Nat.lt_succ_self _
  calls := hw.calls
  returns r hr := by
    obtain ⟨hcall, installation, issuedAt, hopens, hserial⟩ := hw.returns r hr
    exact ⟨hcall, installation, issuedAt, hopens, hserial.trans (Nat.lt_succ_self _)⟩
  validated _ h := by cases h
  rejected _ h := by cases h

theorem clear (hw : Backed policy presented w) : Backed policy presented w.clear :=
  { hw with
    serial_lt := fun _ h => by cases h
    validated := fun _ h => by cases h
    rejected := fun _ h => by cases h }

/-- A call that checks a token, and remembers it as refused only if the call fails. -/
theorem check {b : Issuer β} {refuted : Prop} (hw : Backed policy presented w) (ht : t ∈ presented)
    (hchecks : Issuer.Checks w.clock t refuted w.issuer b)
    (hrefuted : refuted → (w.call t purpose).Fails) :
    Backed policy presented { w with issuer := b, calls := w.call t purpose :: w.calls } where
  maxAge := hchecks.sameButVerdicts.maxAge.trans hw.maxAge
  validatedTtl := hchecks.sameButVerdicts.ttl_validated.trans hw.validatedTtl
  rejectedTtl := hchecks.sameButVerdicts.ttl_rejected.trans hw.rejectedTtl
  serial_lt installation h := by
    rw [hchecks.sameButVerdicts.installed] at h
    rw [hchecks.sameButVerdicts.installations]
    exact hw.serial_lt installation h
  calls c hc := by
    rcases List.mem_cons.mp hc with rfl | hc
    · exact ⟨ht, le_rfl⟩
    · exact hw.calls c hc
  returns r hr := by
    rw [hchecks.sameButVerdicts.installations]
    exact (hw.returns r hr).imp_left (List.mem_cons_of_mem _)
  validated e he := by
    rw [hchecks.sameButVerdicts.installed]
    exact hw.validated e (hchecks.validated e he)
  rejected e he := by
    rw [hchecks.sameButVerdicts.installed]
    rcases hchecks.rejected e he with he | ⟨hfails, rfl⟩
    · obtain ⟨c, hc, hrest⟩ := hw.rejected e he
      exact ⟨c, List.mem_cons_of_mem _ hc, hrest⟩
    · exact ⟨_, List.mem_cons_self, hrefuted hfails, rfl, rfl, rfl⟩

theorem valid (hw : Backed policy presented w) (hpresented : presented.InjOn TokenHandle.digest)
    (ht : t ∈ presented) : Backed policy presented (w.valid t).2 := by
  unfold Desk.valid
  rcases Issuer.valid_cases w.clock t w.issuer with
    ⟨-, h⟩ | ⟨installation, hinstalled, ⟨-, h⟩ | ⟨hrejected, ⟨payload, b, -, hchecks, h⟩ |
      ⟨verified, b, hverify, hchecks, h⟩ | ⟨fault, b, hverify, hchecks, h⟩⟩⟩
  · rw [h]
    exact hw.check ht (.refl _ _ False _) False.elim
  · rw [h]
    exact hw.check ht (.refl _ _ False _) False.elim
  · rw [h]
    exact hw.check ht hchecks False.elim
  · rw [h]
    refine hw.check ht hchecks fun haged => ?_
    obtain ⟨fault, hfault⟩ := hw.verify_of_agedOut hpresented ht hinstalled haged
    rw [hverify] at hfault
    cases hfault
  · rw [h]
    exact hw.check ht hchecks fun _ => ⟨installation, fault, hinstalled, hrejected, hverify⟩

theorem enter [DecidableEq ι] (i : ι) (hw : Backed policy presented w)
    (hpresented : presented.InjOn TokenHandle.digest) (ht : t ∈ presented) :
    Backed policy presented (w.enter t i) := by
  unfold Desk.enter
  rcases Issuer.present_cases w.clock t i w.issuer with
    ⟨-, h⟩ | ⟨installation, hinstalled, ⟨-, h⟩ | ⟨hrejected, ⟨value, b, -, hchecks, h⟩ |
      ⟨token, b, hdecode, hchecks, h⟩ | ⟨fault, b, hdecode, hchecks, h⟩⟩⟩
  · rw [h]
    exact hw.check ht (.refl _ _ False _) False.elim
  · rw [h]
    exact hw.check ht (.refl _ _ False _) False.elim
  · rw [h]
    exact hw.check ht hchecks False.elim
  · rw [h]
    refine hw.check ht hchecks fun haged => ?_
    obtain ⟨fault, hfault⟩ := hw.verify_of_agedOut hpresented ht hinstalled haged
    rw [Token.decode_of_verify_eq_error hfault] at hdecode
    cases hdecode
  · rw [h]
    exact hw.check ht hchecks fun _ => ⟨installation, fault, hinstalled, hrejected, hdecode⟩

/-- Recording a value that was returned for what a token decodes to. -/
theorem note {c : Call β} {installation : Installation} {token : Token.Decoded}
    (value : Option (β i)) (hw : Backed policy presented w) (hc : c ∈ w.calls)
    (hinstalled : c.issuer.installed = some installation)
    (hserial : installation.serial < w.issuer.installations)
    (hdecode : Token.decode installation.keys c.handle.text c.clock.wall policy.maxAge =
      .ok token) : Backed policy presented (w.note c i token.payload value) :=
  { hw with
    returns := fun r hr => by
      rcases List.mem_append.mp hr with hr | hr
      · obtain ⟨v, -, rfl⟩ := Option.map_eq_some_iff.mp (Option.mem_toList.mp hr)
        exact ⟨hc, installation, token.issuedAt, ⟨hinstalled, hdecode⟩, hserial⟩
      · exact hw.returns r hr
    validated := fun e he => by
      obtain ⟨r, hr, hrest⟩ := hw.validated e he
      exact ⟨r, List.mem_append_right _ hr, hrest⟩ }

theorem leave {c : Call β} {installation : Installation} {token : Token.Decoded}
    (value : Option (β i)) (hw : Backed policy presented w) (hc : c ∈ w.calls)
    (hinstalled : c.issuer.installed = some installation)
    (hserial : installation.serial < w.issuer.installations)
    (hdecode : Token.decode installation.keys c.handle.text c.clock.wall policy.maxAge = .ok token)
    (hcurrent : w.issuer.isCurrent installation.serial = true →
      w.issuer.installed = some installation) :
    Backed policy presented (w.leave c i installation.serial token value).2 := by
  have hnote := hw.note value hc hinstalled hserial hdecode
  unfold Desk.leave
  rcases Issuer.settle_cases w.clock c.handle i installation.serial token.issuedAt value w.issuer
    with ⟨v, rfl, hplace, h⟩ | ⟨-, h⟩
  · rw [h]
    refine { hnote with validated := fun e he => ?_ }
    rcases TimedCache.eq_or_mem_entries_put he with rfl | he
    · -- the entry just put goes back to the value just recorded
      exact ⟨_, List.mem_cons_self, installation, ⟨hinstalled, hdecode⟩, hcurrent hplace, rfl,
        rfl, rfl⟩
    · exact hnote.validated e he
  · rw [h]
    exact hnote

/-- After a transform, the installation is still in place iff its keys are still installed. -/
theorem isCurrent_iff [DecidableEq ι] {installation : Installation}
    (hw : Backed policy presented w)
    (hinstalled : w.issuer.installed = some installation)
    (hinside : Reaches presented (w.enter t i) x) :
    x.issuer.isCurrent installation.serial = true ↔ x.issuer.installed = some installation := by
  constructor
  · have hserial := hw.serial_lt installation hinstalled
    rw [← (Issuer.sameButVerdicts_present w.clock t i w.issuer).installations] at hserial
    exact hinside.follows.installed_eq ((enter_installed t i w).trans hinstalled) hserial
  · intro h
    exact Issuer.isCurrent_iff.mpr ⟨installation, h, rfl⟩

end Backed

theorem Reaches.backed [DecidableEq ι] (hpresented : presented.InjOn TokenHandle.digest)
    (h : Reaches presented w x) (hw : Backed policy presented w) : Backed policy presented x := by
  induction h with
  | refl w => exact hw
  | elsewhere clock rng h hclock ih => exact (ih hw).elsewhere rng hclock
  | install master h ih => exact (ih hw).install master
  | clear h ih => exact (ih hw).clear
  | issue payload h ih => exact (ih hw).elsewhere _ le_rfl
  | valid ht h ih => exact (ih hw).valid hpresented ht
  | enter i ht h ih => exact (ih hw).enter i hpresented ht
  | @leave w x y t i serial token value ht hdecoded h hinside ih ihinside =>
    have hx := ih hw
    have hy := ihinside (hx.enter i hpresented ht)
    have hfollows := (follows_enter t i x).trans hinside.follows
    obtain ⟨installation, hinstalled, rfl, hdecode, -⟩ := Issuer.present_eq_decoded hdecoded
    have hserial := (hx.serial_lt installation hinstalled).trans_le hfollows.installations
    have hcall : x.call t (some i) ∈ y.calls := hinside.follows.calls List.mem_cons_self
    rw [hx.maxAge] at hdecode
    exact hy.leave value hcall hinstalled hserial hdecode (hx.isCurrent_iff hinstalled hinside).mp

end QuorumVault.Desk
