import Mathlib.Tactic
import QuorumVault.Proofs.Vault.History

/-!
# Trying one bundle for each request

A vault tries to open a bundle only if it has issued a request before, in the session that it is
still in, and it tries one bundle for each request, whether the bundle opens or not
(`opens_once`).

The invariant is `Requested`: the nonce for which the vault waits is the one of the last request,
which nothing has overtaken (`Outstanding`), and as many bundles as are tried have been asked for.
-/

namespace QuorumVault

variable {ι : Type} {β : ι → Type} {v u : Vault β} {w : World β} {deeds : List (Deed β)}

/-! ### What overtakes a request -/

instance (bundle : Envelope) (v : Vault β) : Decidable (Vault.Opens bundle v) :=
  match hphase : v.phase with
  | .sealed => isFalse (by rintro ⟨⟨session, h⟩, -⟩; rw [hphase] at h; cases h)
  | .unsealed _ _ => isFalse (by rintro ⟨⟨session, h⟩, -⟩; rw [hphase] at h; cases h)
  | .unsealing session =>
    decidable_of_iff (bundle.isEmpty = false ∧ v.requestedNonce.isSome = true)
      ⟨fun h => ⟨⟨session, hphase⟩, h⟩, fun h => h.2⟩

/-- A bundle is tried. -/
def Operation.opens (v : Vault β) : Operation → Bool
  | takeOver _ bundle => decide (Vault.Opens bundle v)
  | _ => false

namespace Answer

/-- A session is started. -/
def starts : Answer → Bool
  | started (.ok _) => true
  | _ => false

/-- A request is issued. -/
def issues : Answer → Bool
  | requested (.ok _) => true
  | _ => false

/-- A master key is taken over. -/
def installs : Answer → Bool
  | takenOver (.ok _) => true
  | _ => false

end Answer

namespace Deed

def starts : Deed β → Bool
  | call w o => (o.run w).1.starts
  | present _ _ _ => false

def issues : Deed β → Bool
  | call w o => (o.run w).1.issues
  | present _ _ _ => false

def opens : Deed β → Bool
  | call w o => o.opens w.vault
  | present _ _ _ => false

def installs : Deed β → Bool
  | call w o => (o.run w).1.installs
  | present _ _ _ => false

/-- After this no earlier request is waited for. -/
def overtakes (d : Deed β) : Bool := d.issues || d.starts || d.isSeal || d.opens

theorem opens_eq_true_iff {d : Deed β} :
    d.opens = true ↔ ∃ x stamp bundle, d = .call x (.takeOver stamp bundle) ∧
      Vault.Opens bundle x.vault := by
  constructor
  · intro h
    cases d with
    | present w t i => cases h
    | call w o =>
      cases o with
      | takeOver stamp bundle => exact ⟨w, stamp, bundle, rfl, of_decide_eq_true h⟩
      | _ => cases h
  · rintro ⟨x, stamp, bundle, rfl, h⟩
    exact decide_eq_true h

theorem overtakes_of_opens {d : Deed β} (h : d.opens = true) : d.overtakes = true := by
  rw [overtakes, h, Bool.or_true]

theorem mem_since {p : Deed β → Bool} {mid earlier : List (Deed β)} {d : Deed β}
    (hmid : ∀ e ∈ mid, p e = false) (hd : p d = false) : d ∈ since p (mid ++ d :: earlier) := by
  have hall : ∀ e ∈ mid, (!p e) = true := by
    intro e he
    rw [hmid e he]
    rfl
  rw [since, List.takeWhile_append_of_pos hall, List.takeWhile_cons_of_pos (by rw [hd]; rfl)]
  exact List.mem_append_right _ List.mem_cons_self

end Deed

/-- What an operation does to the request that is waited for. -/
theorem Outcome.requested_cases {o : Operation} {a : Answer} {entry : Option Entry}
    (h : Outcome v o a entry u) :
    (o.opens v = false ∧ ∃ stamp r session, o = .request stamp ∧ a = .requested (.ok r) ∧
      u.requestedNonce = some r.nonce ∧ u.phase = .unsealing session ∧
        r.sessionKey = session.publicKey) ∨
    (a.issues = false ∧ u.requestedNonce = none ∧
      (o.opens v = true → v.requestedNonce.isSome = true)) ∨
    (a.issues = false ∧ a.starts = false ∧ o.isSeal = false ∧ o.opens v = false ∧
      u.requestedNonce = v.requestedNonce ∧ u.phase.session? = v.phase.session?) := by
  cases h with
  | request hphase hrequest =>
    obtain ⟨hkey, rfl⟩ := Vault.requestFor_eq_ok hrequest
    exact .inl ⟨rfl, _, _, _, rfl, rfl, rfl, hphase, hkey⟩
  | start session hphase => exact .inr (.inl ⟨rfl, rfl, nofun⟩)
  | sealOff => exact .inr (.inl ⟨rfl, rfl, nofun⟩)
  | takeOver hphase hnonce hempty hopen =>
    exact .inr (.inl ⟨rfl, rfl, fun _ => by rw [hnonce]; rfl⟩)
  | spend hphase hnonce hempty hopen =>
    exact .inr (.inl ⟨rfl, rfl, fun _ => by rw [hnonce]; rfl⟩)
  | noTakeOver reason hopens =>
    exact .inr (.inr ⟨rfl, rfl, rfl, decide_eq_false hopens, rfl, rfl⟩)
  | reconstruct masterKey hphase =>
    refine .inr (.inr ⟨rfl, rfl, rfl, rfl, rfl, ?_⟩)
    rw [hphase]
    rfl
  | _ => exact .inr (.inr ⟨rfl, rfl, rfl, rfl, rfl, rfl⟩)

/-- Only a seal takes the master key away, and a vault that takes one over has it. -/
theorem Outcome.masterKey_cases {o : Operation} {a : Answer} {entry : Option Entry}
    (h : Outcome v o a entry u) :
    o.isSeal = true ∨ u.phase.masterKey?.isSome = true ∨
      (a.installs = false ∧ u.phase.masterKey? = v.phase.masterKey?) := by
  cases h with
  | sealOff => exact .inl rfl
  | reconstruct masterKey hphase => exact .inr (.inl rfl)
  | takeOver hphase hnonce hempty hopen => exact .inr (.inl rfl)
  | start session hphase => exact .inr (.inr ⟨rfl, hphase.symm⟩)
  | _ => exact .inr (.inr ⟨rfl, rfl⟩)

/-! ### The invariants -/

/-- The request `r` has been issued, and nothing that was done later overtakes it. -/
def Outstanding (r : KeyRequest) (deeds : List (Deed β)) : Prop :=
  ∃ later x stamp earlier, deeds = later ++ .call x (.request stamp) :: earlier ∧
    ((Operation.request stamp).run x).1 = .requested (.ok r) ∧ ∀ d ∈ later, d.overtakes = false

theorem Outstanding.cons {r : KeyRequest} {d : Deed β} (h : Outstanding r deeds)
    (hd : d.overtakes = false) : Outstanding r (d :: deeds) := by
  obtain ⟨later, x, stamp, earlier, rfl, hanswer, hlater⟩ := h
  refine ⟨d :: later, x, stamp, earlier, rfl, hanswer, ?_⟩
  intro e he
  rcases List.mem_cons.mp he with rfl | he
  · exact hd
  · exact hlater e he

/-- Nothing overtakes an outstanding request, and so it was issued after whatever would. -/
theorem Outstanding.exists_issues {r : KeyRequest} {mid earlier : List (Deed β)} {d : Deed β}
    (h : Outstanding r (mid ++ d :: earlier)) (hd : d.overtakes = true)
    (hissues : d.issues = false) :
    ∃ e ∈ mid, e.issues = true := by
  obtain ⟨later, x, stamp, rest, hdeeds, hanswer, hlater⟩ := h
  have hx : (Deed.call x (.request stamp)).issues = true := by
    rw [Deed.issues, hanswer]
    rfl
  rcases List.append_eq_append_iff.mp hdeeds with ⟨more, rfl, htail⟩ | ⟨more, rfl, htail⟩
  · -- the deed comes after the request, or it is the request
    cases more with
    | nil =>
      obtain ⟨rfl, rfl⟩ := List.cons.inj htail
      rw [hx] at hissues
      cases hissues
    | cons e more =>
      obtain ⟨rfl, -⟩ := List.cons.inj htail
      have hnot := hlater d (List.mem_append_right _ List.mem_cons_self)
      rw [hd] at hnot
      cases hnot
  · cases more with
    | nil =>
      obtain ⟨rfl, -⟩ := List.cons.inj htail
      rw [hx] at hissues
      cases hissues
    | cons e more =>
      obtain ⟨rfl, -⟩ := List.cons.inj htail
      exact ⟨_, List.mem_append_right _ List.mem_cons_self, hx⟩

/-- What a vault waits for is right. -/
structure Requested (deeds : List (Deed β)) (v : Vault β) : Prop where
  exists_outstanding : ∀ nonce, v.requestedNonce = some nonce → ∃ r session,
    Outstanding r deeds ∧ r.nonce = nonce ∧ v.phase.session? = some session ∧
      r.sessionKey = session.publicKey
  count_le : deeds.countP Deed.opens + v.requestedNonce.toList.length ≤ deeds.countP Deed.issues

namespace Requested

theorem fresh (settings : Settings) (policy : Policy) (identity : Option Identity) :
    Requested [] (Vault.fresh settings policy identity : Vault β) := by
  constructor
  · intro nonce hnonce
    cases hnonce
  · exact le_rfl

/-- A bundle that is tried uses up the request that is waited for, and only a request that is issued
makes up for it. -/
theorem count_le_cons {d : Deed β} (h : Requested deeds v)
    (hd : (if d.opens then 1 else 0) + u.requestedNonce.toList.length ≤
      (if d.issues then 1 else 0) + v.requestedNonce.toList.length) :
    (d :: deeds).countP Deed.opens + u.requestedNonce.toList.length ≤
      (d :: deeds).countP Deed.issues := by
  have hcount := h.count_le
  rw [List.countP_cons, List.countP_cons]
  omega

/-- Every operation keeps the invariant. -/
theorem call {o : Operation} {entry : Option Entry} (h : Requested deeds w.vault)
    (houtcome : Outcome w.vault o (o.run w).1 entry u) : Requested (.call w o :: deeds) u := by
  rcases houtcome.requested_cases with
    ⟨hopens, stamp, r, session, rfl, hanswer, hnonce, hphase, hkey⟩ | ⟨hissues, hnone, hsome⟩ |
      ⟨hissues, hstarts, hseal, hopens, hnonce, hsession⟩
  · constructor
    · intro nonce hnonce'
      obtain rfl : r.nonce = nonce := Option.some.inj (hnonce.symm.trans hnonce')
      have hissued : Outstanding r (.call w (.request stamp) :: deeds) :=
        ⟨[], w, stamp, deeds, rfl, hanswer, fun d hd => absurd hd List.not_mem_nil⟩
      exact ⟨r, session, hissued, rfl, by rw [hphase]; rfl, hkey⟩
    · refine h.count_le_cons ?_
      have hissues : (Deed.call w (.request stamp)).issues = true := by
        rw [Deed.issues, hanswer]
        rfl
      rw [Deed.opens, hopens, hissues, hnonce]
      exact Nat.le_add_right 1 _
  · constructor
    · intro nonce hnonce
      rw [hnone] at hnonce
      cases hnonce
    · refine h.count_le_cons ?_
      rw [Deed.opens, Deed.issues, hissues, hnone]
      cases hopens : o.opens w.vault with
      | false => exact Nat.zero_le _
      | true =>
        obtain ⟨nonce, hnonce⟩ := Option.isSome_iff_exists.mp (hsome hopens)
        rw [hnonce]
        exact le_rfl
  · constructor
    · intro nonce hnonce'
      have hovertakes : (Deed.call w o).overtakes = false := by
        rw [Deed.overtakes, Deed.issues, hissues, Deed.opens, hopens, Deed.starts, hstarts,
          Deed.isSeal, hseal]
        rfl
      rw [hnonce] at hnonce'
      obtain ⟨r, session, hr, hnonce, hphase, hkey⟩ := h.exists_outstanding nonce hnonce'
      exact ⟨r, session, hr.cons hovertakes, hnonce, hsession.trans hphase, hkey⟩
    · refine h.count_le_cons ?_
      rw [Deed.opens, hopens, Deed.issues, hissues, hnonce]

theorem present {t : TokenHandle} {i : ι} (h : Requested deeds v) :
    Requested (.present w t i :: deeds) v := by
  constructor
  · intro nonce hnonce
    obtain ⟨r, session, hr, hrest⟩ := h.exists_outstanding nonce hnonce
    exact ⟨r, session, hr.cons rfl, hrest⟩
  · exact h.count_le

theorem of_eq (h : Requested deeds v) (hnonce : u.requestedNonce = v.requestedNonce)
    (hphase : u.phase = v.phase) : Requested deeds u := by
  constructor
  · rw [hnonce, hphase]
    exact h.exists_outstanding
  · rw [hnonce]
    exact h.count_le

end Requested

/-- A vault that has taken a master key over since it was sealed has one. -/
def Installed (deeds : List (Deed β)) (v : Vault β) : Prop :=
  ∀ d ∈ Deed.since Deed.isSeal deeds, d.installs = true → v.phase.masterKey?.isSome = true

theorem Installed.call {o : Operation} {entry : Option Entry} (h : Installed deeds w.vault)
    (houtcome : Outcome w.vault o (o.run w).1 entry u) : Installed (.call w o :: deeds) u := by
  intro d hd hinstalls
  cases hseal : (Deed.call w o).isSeal with
  | true =>
    rw [Deed.since_cons_of_eq_true hseal] at hd
    cases hd
  | false =>
    rw [Deed.since_cons_of_eq_false hseal] at hd
    rcases houtcome.masterKey_cases with hseal' | hsome | ⟨hnot, hsame⟩
    · rw [Deed.isSeal, hseal'] at hseal
      cases hseal
    · exact hsome
    · rcases List.mem_cons.mp hd with rfl | hd
      · rw [Deed.installs, hnot] at hinstalls
        cases hinstalls
      · rw [hsame]
        exact h d hd hinstalls

theorem Installed.present {t : TokenHandle} {i : ι} (h : Installed deeds v) :
    Installed (.present w t i :: deeds) v := by
  intro d hd hinstalls
  rw [Deed.since_cons_of_eq_false (d := .present w t i) rfl] at hd
  rcases List.mem_cons.mp hd with rfl | hd
  · cases hinstalls
  · exact h d hd hinstalls

namespace History

variable [DecidableEq ι] {start : World β}

theorem requested (h : History start deeds w) (hstart : Requested [] start.vault) :
    Requested deeds w.vault := by
  refine h.induct (motive := Requested) hstart ?_ ?_ ?_
  · intro deeds w o entry u houtcome _ hrequested
    exact (hrequested.call houtcome).of_eq (Vault.requestedNonce_logged entry u)
      (Vault.phase_logged entry u)
  · intro deeds w t i hrequested
    exact hrequested.present
  · intro deeds v issuer hrequested
    exact hrequested.of_eq rfl rfl

theorem installed (h : History start deeds w) : Installed deeds w.vault := by
  refine h.induct (motive := Installed) ?_ ?_ ?_ ?_
  · intro d hd
    cases hd
  · intro deeds w o entry u houtcome _ hinstalled
    rw [Installed, Vault.phase_logged]
    exact hinstalled.call houtcome
  · intro deeds w t i hinstalled
    exact hinstalled.present
  · intro deeds v issuer hinstalled
    exact hinstalled

/-- Between two bundles that are tried a request is issued, and if the first one was taken over the
vault is sealed. -/
theorem between (h : History start deeds w) (hstart : Requested [] start.vault)
    {later mid earlier : List (Deed β)} {d e : Deed β}
    (hdeeds : deeds = later ++ d :: (mid ++ e :: earlier)) (hd : d.opens = true)
    (he : e.opens = true) :
    (∃ c ∈ mid, c.issues = true) ∧ (e.installs = true → ∃ c ∈ mid, c.isSeal = true) := by
  obtain ⟨x, stamp, bundle, rfl, ⟨session, hphase⟩, -, hnonce⟩ := Deed.opens_eq_true_iff.mp hd
  obtain ⟨y, stamp', bundle', rfl, -⟩ := Deed.opens_eq_true_iff.mp he
  rw [hdeeds] at h
  have hx : History start (mid ++ .call y (.takeOver stamp' bundle') :: earlier) x := h.of_append
  constructor
  · obtain ⟨nonce, hnonce⟩ := Option.isSome_iff_exists.mp hnonce
    obtain ⟨r, -, hr, -⟩ := (hx.requested hstart).exists_outstanding nonce hnonce
    exact hr.exists_issues (Deed.overtakes_of_opens he) rfl
  · intro hinstalls
    by_contra hnone
    have hmid : ∀ c ∈ mid, c.isSeal = false := by
      intro c hc
      exact Bool.eq_false_iff.mpr fun hseal => hnone ⟨c, hc, hseal⟩
    have hsome := hx.installed _ (Deed.mem_since hmid rfl) hinstalls
    rw [hphase] at hsome
    cases hsome

end History

/-! ### One bundle for each request -/

/-- **One bundle for each request.**  Let a vault run from its making on.  The nonce for which it
waits is the one of the last request, which asks for the key of the session that the vault is in,
and since which there was no other session, no seal and no bundle that was tried.  A bundle is tried
only if a request is outstanding, with the session and the nonce of this request; afterwards every
bundle is refused, and nothing changes, until the next request is issued.  So there are no more
bundles that are tried than requests that are issued: between two of them a request is issued, and
if the first one was taken over the vault is sealed. -/
theorem History.opens_once [DecidableEq ι] {settings : Settings} {policy : Policy}
    {identity : Option Identity} {v : Vault β} {clock : Clock} {rng : Entropy}
    (hv : Vault.ofSettings? settings policy identity = .ok v)
    (h : History ⟨v, clock, rng⟩ deeds w) :
    (∀ nonce, w.vault.requestedNonce = some nonce → ∃ r session, Outstanding r deeds ∧
      r.nonce = nonce ∧ w.vault.phase.session? = some session ∧
        r.sessionKey = session.publicKey) ∧
    (∀ later x stamp bundle earlier, deeds = later ++ .call x (.takeOver stamp bundle) :: earlier →
      Vault.Opens bundle x.vault →
        (∃ r session, Outstanding r earlier ∧ x.vault.phase = .unsealing session ∧
          r.sessionKey = session.publicKey ∧ (x.vault.takeOver stamp bundle).1 =
            (Vault.openBundle settings.suite session bundle r.nonce).map fun _ => ()) ∧
        ((∀ d ∈ later, d.issues = false) → ∀ stamp bundle, ∃ reason,
          w.vault.takeOver stamp bundle = (.error (.precondition reason), w.vault))) ∧
    deeds.countP Deed.opens ≤ deeds.countP Deed.issues ∧
    ∀ later d mid e earlier, deeds = later ++ d :: (mid ++ e :: earlier) → d.opens = true →
      e.opens = true → (∃ c ∈ mid, c.issues = true) ∧
        (e.installs = true → ∃ c ∈ mid, c.isSeal = true) := by
  have hsettings {deeds : List (Deed β)} {w : World β} (h : History ⟨v, clock, rng⟩ deeds w) :
      w.vault.settings = settings := (h.sound hv).settings_eq
  obtain ⟨-, rfl⟩ := Vault.ofSettings?_eq_ok_iff.mp hv
  have hfresh := Requested.fresh (β := β) settings policy identity
  have hrequested : Requested deeds w.vault := h.requested hfresh
  refine ⟨hrequested.exists_outstanding, ?_, ?_, ?_⟩
  · intro later x stamp bundle earlier hdeeds hopens
    have hd : (Deed.call x (.takeOver stamp bundle)).opens = true := decide_eq_true hopens
    constructor
    · rw [hdeeds] at h
      have hx : History _ earlier x := h.of_append
      obtain ⟨session, nonce, hphase, hnonce, htake⟩ := Vault.takeOver_of_opens stamp hopens
      obtain ⟨r, session', hr, rfl, hsession, hkey⟩ :=
        (hx.requested hfresh).exists_outstanding nonce hnonce
      rw [hphase] at hsession
      obtain rfl : session = session' := Option.some.inj hsession
      refine ⟨r, session, hr, hphase, hkey, ?_⟩
      rw [htake, hsettings hx]
      cases Vault.openBundle settings.suite session bundle r.nonce with
      | error refusal => rfl
      | ok masterKey => rfl
    · intro hlater stamp' bundle'
      refine Vault.takeOver_of_not_opens stamp' ?_
      rintro ⟨-, -, hnonce⟩
      obtain ⟨nonce, hnonce⟩ := Option.isSome_iff_exists.mp hnonce
      obtain ⟨r, -, hr, -⟩ := hrequested.exists_outstanding nonce hnonce
      rw [hdeeds] at hr
      obtain ⟨e, he, hissues⟩ := hr.exists_issues (Deed.overtakes_of_opens hd) rfl
      rw [hlater e he] at hissues
      cases hissues
  · exact le_trans (Nat.le_add_right _ _) hrequested.count_le
  · intro later d mid e earlier hdeeds hd he
    exact h.between hfresh hdeeds hd he

/-- A bundle that does not open is not tried again, although the session goes on. -/
theorem History.opens_once_of_broken :
    ∃ (w : World fun _ : Unit => Unit) (deeds : List (Deed fun _ : Unit => Unit))
      (session : KeyPair) (broken : Envelope), History (.blank _) deeds w ∧
        deeds.countP Deed.opens = 1 ∧ w.vault.phase = .unsealing session ∧
          ∃ reason, w.vault.takeOver .blank broken = (.error (.precondition reason), w.vault) := by
  let broken : Envelope := ⟨[0], [], []⟩
  let asking : World fun _ : Unit => Unit := .asking _
  let deeds : List (Deed fun _ : Unit => Unit) := [.call asking (.takeOver .blank broken),
    .call (.starting _) (.request .blank), .call (.blank _) (.startSession .blank)]
  let w := ((Operation.takeOver .blank broken).run asking).2
  have hw : History (.blank _) deeds w := ((History.refl.call _).call _).call _
  have hopens : Vault.Opens broken asking.vault := ⟨⟨⟨.zeros 32⟩, rfl⟩, rfl, rfl⟩
  have hv : Vault.ofSettings? .standard .alwaysAccept none =
      .ok (World.blank fun _ : Unit => Unit).vault := rfl
  obtain ⟨-, htried, -, -⟩ := hw.opens_once hv
  obtain ⟨-, hrefused⟩ := htried [] asking .blank broken _ rfl hopens
  refine ⟨w, deeds, ⟨.zeros 32⟩, broken, hw, rfl, rfl, hrefused ?_ .blank broken⟩
  intro d hd
  cases hd

end QuorumVault
