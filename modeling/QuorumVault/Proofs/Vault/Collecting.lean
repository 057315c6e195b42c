import Mathlib.Tactic
import QuorumVault.Proofs.Sharing.Share
import QuorumVault.Proofs.Vault.Requesting
import QuorumVault.Proofs.Vault.Unsealing

/-!
# The pending shares are the accepted ones

In a session the pending shares are those that have been accepted since the session was started, as
its key pair takes them out of their envelopes, and of those with one index the last one
(`History.pending_exact`).  Nothing else that happens in the session adds a share or drops one, and
outside of a session there are none.

The invariant is `Collected`.  It goes through `Deed.collected`, the list of the accepted shares.
-/

namespace QuorumVault

variable {ι : Type} {β : ι → Type} {v u : Vault β} {w : World β} {deeds : List (Deed β)}

/-! ### What has been accepted -/

namespace Deed

/-- A share is accepted. -/
def accepts : Deed β → Bool
  | call w (.submit stamp envelope) => !(Operation.run (.submit stamp envelope) w).1.isFailure
  | _ => false

/-- The share that is submitted, as a key pair takes it out of its envelope. -/
def share? (session : KeyPair) : Deed β → Option Share
  | call w (.submit _ envelope) => (envelope.unpackShare w.vault.settings.suite session).toOption
  | _ => none

/-- The shares that have been accepted since the last session was started, the last one first. -/
def collected (session : KeyPair) (deeds : List (Deed β)) : List Share :=
  ((since starts deeds).filter accepts).filterMap (share? session)

/-- The bytes of the last share with an index that has been accepted. -/
def lastAccepted (session : KeyPair) (index : UInt8) (deeds : List (Deed β)) : Option Bytes :=
  ((collected session deeds).find? fun s => s.index = index).map Share.bytes

/-- The number of indices of which a share has been accepted. -/
def countAccepted (session : KeyPair) (deeds : List (Deed β)) : ℕ :=
  ((collected session deeds).map Share.index).toFinset.card

variable {session : KeyPair} {d : Deed β}

theorem accepts_eq_true_iff {stamp : Stamp} {envelope : Envelope} :
    (call w (.submit stamp envelope)).accepts = true ↔
      (Operation.run (.submit stamp envelope) w).1.isFailure = false := by
  show (!(Operation.run (.submit stamp envelope) w).1.isFailure) = true ↔ _
  rw [Bool.not_eq_true']

theorem accepts_of_keepShare {stamp : Stamp} {envelope : Envelope} {share : Share}
    (h : w.vault.submit stamp envelope = w.vault.keepShare stamp share) :
    (call w (.submit stamp envelope)).accepts = true := by
  rw [accepts_eq_true_iff]
  show (Answer.submitted (w.vault.submit stamp envelope).1).isFailure = false
  rw [h]
  rfl

theorem share?_eq_some {stamp : Stamp} {envelope : Envelope} {share : Share}
    (h : envelope.unpackShare w.vault.settings.suite session = .ok share) :
    (call w (.submit stamp envelope)).share? session = some share := by
  show (envelope.unpackShare w.vault.settings.suite session).toOption = some share
  rw [h]
  rfl

theorem collected_cons_of_starts (h : d.starts = true) : collected session (d :: deeds) = [] := by
  unfold collected
  rw [since_cons_of_eq_true h]
  rfl

theorem collected_cons_of_accepts {share : Share} (hstarts : d.starts = false)
    (haccepts : d.accepts = true) (hshare : d.share? session = some share) :
    collected session (d :: deeds) = share :: collected session deeds := by
  unfold collected
  rw [since_cons_of_eq_false hstarts, List.filter_cons_of_pos haccepts,
    List.filterMap_cons_some hshare]

theorem collected_cons_of_not_accepts (hstarts : d.starts = false) (haccepts : d.accepts = false) :
    collected session (d :: deeds) = collected session deeds := by
  unfold collected
  rw [since_cons_of_eq_false hstarts, List.filter_cons_of_neg (by rw [haccepts]; decide)]

end Deed

/-! ### What an operation does to the pending shares -/

/-- A session is started without shares; while it goes on, a share is put among the others if it is
accepted, and nothing else becomes of them. -/
theorem Outcome.session_cases {o : Operation} {a : Answer} {entry : Option Entry}
    {session : KeyPair} (h : Outcome v o a entry u) (hphase : u.phase = .unsealing session) :
    (a.starts = true ∧ u.shares = .empty ∧ ∃ stamp, o = .startSession stamp) ∨
    (a.starts = false ∧ v.phase = .unsealing session ∧
      ((∃ stamp envelope share, o = .submit stamp envelope ∧ a.isFailure = false ∧
        envelope.unpackShare v.settings.suite session = .ok share ∧
          u.shares = v.shares.insert share) ∨
      ((∀ stamp envelope, o = .submit stamp envelope → a.isFailure = true) ∧
        u.shares = v.shares))) := by
  cases h with
  | start session' hphase' => exact .inl ⟨rfl, rfl, _, rfl⟩
  | keep hphase' hopen hindex =>
    have hphase : v.phase = .unsealing session := hphase
    cases hphase'.symm.trans hphase
    exact .inr ⟨rfl, hphase, .inl ⟨_, _, _, rfl, rfl, hopen, rfl⟩⟩
  | reject hphase' cause answer =>
    exact .inr ⟨rfl, hphase, .inr ⟨fun _ _ _ => rfl, rfl⟩⟩
  | noSubmit refusal => exact .inr ⟨rfl, hphase, .inr ⟨fun _ _ _ => rfl, rfl⟩⟩
  | reconstruct masterKey hphase' => cases hphase
  | sealOff => cases hphase
  | takeOver hphase' hnonce hempty hopen => cases hphase
  | _ => exact .inr ⟨rfl, hphase, .inr ⟨nofun, rfl⟩⟩

/-! ### The invariant -/

/-- The shares of a session are those that have been accepted in it. -/
structure Collected (deeds : List (Deed β)) (v : Vault β) (session : KeyPair) : Prop where
  shares_eq : v.shares = .ofList (Deed.collected session deeds).reverse
  /-- The session opens every share that has been accepted. -/
  isSome_share? : ∀ d ∈ Deed.since Deed.starts deeds, d.accepts = true →
    (d.share? session).isSome = true
  /-- The session is the one that was started last. -/
  exists_start : ∃ x stamp earlier,
    deeds = Deed.since Deed.starts deeds ++ .call x (.startSession stamp) :: earlier ∧
      ((Operation.startSession stamp).run x).2.vault.phase = .unsealing session

namespace Collected

variable {session : KeyPair} {d : Deed β}

theorem of_shares_eq (h : Collected deeds v session) (hu : u.shares = v.shares) :
    Collected deeds u session :=
  ⟨hu.trans h.shares_eq, h.isSome_share?, h.exists_start⟩

theorem exists_start_cons (h : Collected deeds v session) (hstarts : d.starts = false) :
    ∃ x stamp earlier,
      d :: deeds = Deed.since Deed.starts (d :: deeds) ++ .call x (.startSession stamp) :: earlier ∧
        ((Operation.startSession stamp).run x).2.vault.phase = .unsealing session := by
  obtain ⟨x, stamp, earlier, hdeeds, hphase⟩ := h.exists_start
  refine ⟨x, stamp, earlier, ?_, hphase⟩
  rw [Deed.since_cons_of_eq_false hstarts, List.cons_append, ← hdeeds]

/-- A share that is accepted takes its place among the others. -/
theorem cons_of_accepts {share : Share} (h : Collected deeds v session) (hstarts : d.starts = false)
    (haccepts : d.accepts = true) (hshare : d.share? session = some share)
    (hu : u.shares = v.shares.insert share) : Collected (d :: deeds) u session where
  shares_eq := by
    rw [hu, h.shares_eq, Deed.collected_cons_of_accepts hstarts haccepts hshare,
      List.reverse_cons, ShareMap.ofList_append_singleton]
  isSome_share? := by
    rw [Deed.since_cons_of_eq_false hstarts, List.forall_mem_cons]
    exact ⟨fun _ => by rw [hshare]; rfl, h.isSome_share?⟩
  exists_start := h.exists_start_cons hstarts

/-- What else happens leaves the shares alone. -/
theorem cons_of_not_accepts (h : Collected deeds v session) (hstarts : d.starts = false)
    (haccepts : d.accepts = false) (hu : u.shares = v.shares) :
    Collected (d :: deeds) u session where
  shares_eq := by
    rw [hu, h.shares_eq, Deed.collected_cons_of_not_accepts hstarts haccepts]
  isSome_share? := by
    rw [Deed.since_cons_of_eq_false hstarts, List.forall_mem_cons, haccepts]
    exact ⟨nofun, h.isSome_share?⟩
  exists_start := h.exists_start_cons hstarts

/-- Every operation keeps the invariant. -/
theorem call {o : Operation}
    (h : ∀ session, w.vault.phase = .unsealing session → Collected deeds w.vault session)
    (hphase : (o.run w).2.vault.phase = .unsealing session) :
    Collected (.call w o :: deeds) (o.run w).2.vault session := by
  obtain ⟨entry, u, houtcome, hvault, -⟩ := o.exists_outcome w
  have hshares : (o.run w).2.vault.shares = u.shares := by
    rw [hvault, Vault.shares_logged]
  have hu : u.phase = .unsealing session := by
    rw [← hphase, hvault, Vault.phase_logged]
  rcases houtcome.session_cases hu with ⟨hstarts, hempty, stamp, rfl⟩ |
    ⟨hstarts, hsame, ⟨stamp, envelope, share, rfl, hfailure, hopen, hinsert⟩ | ⟨hsubmit, hkept⟩⟩
  · have hstarts : (Deed.call w (.startSession stamp)).starts = true := hstarts
    refine ⟨?_, ?_, w, stamp, deeds, ?_, hphase⟩
    · rw [hshares, hempty, Deed.collected_cons_of_starts hstarts]
      rfl
    · rw [Deed.since_cons_of_eq_true hstarts]
      exact fun d hd => absurd hd List.not_mem_nil
    · rw [Deed.since_cons_of_eq_true hstarts, List.nil_append]
  · have haccepts : (Deed.call w (.submit stamp envelope)).accepts = true :=
      Deed.accepts_eq_true_iff.mpr hfailure
    exact (h session hsame).cons_of_accepts hstarts haccepts (Deed.share?_eq_some hopen)
      (hshares.trans hinsert)
  · -- either no share was submitted, or it was rejected
    have haccepts : (Deed.call w o).accepts = false := by
      cases o with
      | submit stamp envelope =>
        rw [← Bool.not_eq_true, Deed.accepts_eq_true_iff, hsubmit stamp envelope rfl]
        decide
      | _ => rfl
    exact (h session hsame).cons_of_not_accepts hstarts haccepts (hshares.trans hkept)

theorem pending_eq (h : Collected deeds v session) :
    v.pending = Deed.countAccepted session deeds := by
  rw [Vault.pending, h.shares_eq, ShareMap.size_ofList, List.map_reverse, List.toFinset_reverse,
    Deed.countAccepted]

theorem get?_eq (h : Collected deeds v session) (index : UInt8) :
    v.shares.get? index = Deed.lastAccepted session index deeds := by
  rw [h.shares_eq, ShareMap.get?_ofList, List.reverse_reverse, Deed.lastAccepted]

end Collected

theorem History.collected [DecidableEq ι] {start : World β} (hstart : start.vault.phase = .sealed)
    (h : History start deeds w) {session : KeyPair} (hphase : w.vault.phase = .unsealing session) :
    Collected deeds w.vault session := by
  induction h generalizing session with
  | refl =>
    rw [hstart] at hphase
    cases hphase
  | elsewhere clock rng h ih => exact ih hphase
  | call o h ih => exact Collected.call (fun session => ih) hphase
  | present t i h ih =>
    exact (ih hphase).cons_of_not_accepts (d := .present _ t i) rfl rfl rfl
  | settle t i serial issuedAt value h ih => exact (ih hphase).of_shares_eq rfl

/-! ### Counts -/

namespace Vault

/-- The answer to a share counts those that are pending then. -/
theorem shareCount_of_submit {stamp : Stamp} {envelope : Envelope} {status : Status}
    (h : (v.submit stamp envelope).1 = .ok status) :
    (∃ session, v.phase = .unsealing session ∧
      (v.submit stamp envelope).2.phase = .unsealing session) ∧
      status.shareCount = (v.submit stamp envelope).2.pending := by
  by_cases hphase : ∃ session, v.phase = .unsealing session
  · obtain ⟨session, hphase⟩ := hphase
    rcases submit_of_unsealing stamp envelope hphase with
      ⟨fault, -, hsubmit⟩ | ⟨share, -, -, hsubmit⟩ | ⟨share, -, -, hsubmit⟩
    · rw [hsubmit] at h ⊢
      cases h
      exact ⟨⟨session, hphase, hphase⟩, rfl⟩
    · rw [hsubmit] at h ⊢
      cases h
      exact ⟨⟨session, hphase, hphase⟩, rfl⟩
    · rw [hsubmit] at h ⊢
      cases h
      exact ⟨⟨session, hphase, hphase⟩, rfl⟩
  · rw [submit_of_forall_ne (not_exists.mp hphase)] at h
    cases h

theorem shareCount_of_reconstruct {stamp : Stamp} {status : UnwrapStatus}
    (h : (v.reconstruct stamp).1 = .ok status) :
    (∃ session, v.phase = .unsealing session) ∧ status.shareCount = v.pending := by
  by_cases hphase : ∃ session, v.phase = .unsealing session
  · obtain ⟨session, hphase⟩ := hphase
    rcases reconstruct_of_unsealing stamp hphase with
      ⟨-, hreconstruct⟩ | ⟨fault, -, -, hreconstruct⟩ | ⟨secret, -, -, hreconstruct⟩
    · rw [hreconstruct] at h
      cases h
      exact ⟨⟨session, hphase⟩, rfl⟩
    · rw [hreconstruct] at h
      cases h
      exact ⟨⟨session, hphase⟩, rfl⟩
    · rw [hreconstruct] at h
      cases h
      exact ⟨⟨session, hphase⟩, rfl⟩
  · rw [reconstruct_of_forall_ne (not_exists.mp hphase)] at h
    cases h

/-! ### The order of submissions -/

/-- What an attempt to reconstruct the master key comes to: the answer, and the key if there is one.
-/
def attempt (stamp : Stamp) (v : Vault β) : Except Refusal UnwrapStatus × Option SecretKey :=
  ((v.reconstruct stamp).1, (v.reconstruct stamp).2.phase.masterKey?)

/-- An attempt depends on the settings, the identity and the pending shares only. -/
theorem attempt_congr {session session' : KeyPair} (hv : v.phase = .unsealing session)
    (hu : u.phase = .unsealing session') (hsettings : u.settings = v.settings)
    (hidentity : u.identity = v.identity) (hshares : u.shares = v.shares) (stamp stamp' : Stamp) :
    u.attempt stamp' = v.attempt stamp := by
  have hpending : u.pending = v.pending := congrArg ShareMap.size hshares
  unfold attempt
  rw [reconstruct_eq stamp hv, reconstruct_eq stamp' hu, hpending, hsettings, hidentity, hshares]
  split_ifs with hcount
  · show (_, u.phase.masterKey?) = (_, v.phase.masterKey?)
    rw [hv, hu]
    rfl
  · cases Sharing.combine v.settings.threshold v.shares with
    | error fault =>
      show (_, u.phase.masterKey?) = (_, v.phase.masterKey?)
      rw [hv, hu]
      rfl
    | ok secret =>
      show (_, some _) = (_, some _)
      rfl

/-- The vault after shares have been submitted one after the other. -/
def submitAll (submissions : List (Stamp × Envelope)) (v : Vault β) : Vault β :=
  submissions.foldl (fun v x => (v.submit x.1 x.2).2) v

theorem submit_of_unpackShare {session : KeyPair} {stamp : Stamp} {envelope : Envelope}
    {share : Share} (hphase : v.phase = .unsealing session)
    (hopen : envelope.unpackShare v.settings.suite session = .ok share)
    (hindex : share.index ≤ v.settings.shareCount) :
    v.submit stamp envelope = v.keepShare stamp share := by
  rw [submit, hphase]
  simp only [hopen]
  exact if_neg (UInt8.not_lt.mpr hindex)

/-- The share in an envelope, if the vault accepts it in a session. -/
def acceptable? (session : KeyPair) (v : Vault β) (envelope : Envelope) : Option Share :=
  (envelope.unpackShare v.settings.suite session).toOption.filter fun share =>
    share.index ≤ v.settings.shareCount

theorem submit_eq_insert {session : KeyPair} (stamp : Stamp) (envelope : Envelope)
    (hphase : v.phase = .unsealing session) :
    (v.submit stamp envelope).2.phase = .unsealing session ∧
      (v.submit stamp envelope).2.settings = v.settings ∧
      (v.submit stamp envelope).2.identity = v.identity ∧
      (v.submit stamp envelope).2.shares =
        (v.acceptable? session envelope).toList.foldl ShareMap.insert v.shares := by
  unfold acceptable?
  rcases submit_of_unsealing stamp envelope hphase with
    ⟨fault, hopen, h⟩ | ⟨share, hopen, hindex, h⟩ | ⟨share, hopen, hindex, h⟩
  · rw [h, hopen]
    exact ⟨hphase, rfl, rfl, rfl⟩
  · have hnone : (some share).filter (fun share => share.index ≤ v.settings.shareCount) = none := by
      simpa using hindex
    rw [h, hopen, Except.toOption, hnone]
    exact ⟨hphase, rfl, rfl, rfl⟩
  · have hsome : (some share).filter (fun share => share.index ≤ v.settings.shareCount) =
        some share := by
      simpa using hindex
    rw [h, hopen, Except.toOption, hsome]
    exact ⟨hphase, rfl, rfl, rfl⟩

theorem submitAll_eq {session : KeyPair} (submissions : List (Stamp × Envelope))
    (hphase : v.phase = .unsealing session) :
    (v.submitAll submissions).phase = .unsealing session ∧
      (v.submitAll submissions).settings = v.settings ∧
      (v.submitAll submissions).identity = v.identity ∧
      (v.submitAll submissions).shares =
        ((submissions.map Prod.snd).filterMap (v.acceptable? session)).foldl ShareMap.insert
          v.shares := by
  induction submissions generalizing v with
  | nil => exact ⟨hphase, rfl, rfl, rfl⟩
  | cons x submissions ih =>
    obtain ⟨hnext, hsettings, hidentity, hshares⟩ := submit_eq_insert x.1 x.2 hphase
    obtain ⟨hlast, hsettings', hidentity', hshares'⟩ := ih hnext
    have hsame : (v.submit x.1 x.2).2.acceptable? session = v.acceptable? session := by
      funext envelope
      rw [acceptable?, acceptable?, hsettings]
    refine ⟨hlast, hsettings'.trans hsettings, hidentity'.trans hidentity, hshares'.trans ?_⟩
    rw [hsame, hshares, List.map_cons]
    cases h : v.acceptable? session x.2 with
    | none => rw [List.filterMap_cons_none h]; rfl
    | some share => rw [List.filterMap_cons_some h]; rfl

end Vault

/-- Shares with different indices may be put into a map in any order. -/
theorem ShareMap.foldl_insert_perm {shares shares' : List Share} (h : shares.Perm shares')
    (hnodup : (shares.map Share.index).Nodup) (m : ShareMap) :
    shares.foldl insert m = shares'.foldl insert m := by
  have hinj := List.inj_on_of_nodup_map hnodup
  refine h.foldl_eq' ?_ m
  intro s hs s' hs' m
  by_cases hsame : s = s'
  · rw [hsame]
  · have hne : s.index ≠ s'.index := fun hindex => hsame (hinj hs hs' hindex)
    apply ShareMap.ext
    intro index
    by_cases hi : index = s.index
    · subst hi
      rw [get?_insert_of_ne _ hne, get?_insert_self, get?_insert_self]
    · by_cases hi' : index = s'.index
      · subst hi'
        rw [get?_insert_self, get?_insert_of_ne _ hi, get?_insert_self]
      · simp only [get?_insert_of_ne _ hi, get?_insert_of_ne _ hi']

/-! ### The pending shares -/

/-- **No share is lost, duplicated or carried over.**  Let a vault run from its making on.  In a
session the pending shares are, for each index, the last one that has been accepted since the
session was started, as the key pair of that session takes it out of its envelope; outside of a
session there are none.  Each answer to a share or to an attempt to reconstruct the master key
counts the indices of which a share has been accepted by then.  Hence two runs in which the same
shares have been accepted last make the next attempt come to the same answer and the same master
key, and so do shares with different indices that are submitted in any order. -/
theorem History.pending_exact [DecidableEq ι] {settings : Settings} {policy : Policy}
    {identity : Option Identity} {v : Vault β} {clock : Clock} {rng : Entropy}
    (hv : Vault.ofSettings? settings policy identity = .ok v)
    (h : History ⟨v, clock, rng⟩ deeds w) :
    (∀ session, w.vault.phase = .unsealing session →
      (∀ index, w.vault.shares.get? index = Deed.lastAccepted session index deeds) ∧
      (∀ d ∈ Deed.since Deed.starts deeds, d.accepts = true → (d.share? session).isSome = true) ∧
      ∃ x stamp earlier,
        deeds = Deed.since Deed.starts deeds ++ .call x (.startSession stamp) :: earlier ∧
          ((Operation.startSession stamp).run x).2.vault.phase = .unsealing session) ∧
    ((∀ session, w.vault.phase ≠ .unsealing session) → w.vault.shares = .empty) ∧
    (∀ stamp envelope status, (w.vault.submit stamp envelope).1 = .ok status →
      ∃ session, w.vault.phase = .unsealing session ∧ status.shareCount =
        Deed.countAccepted session (.call w (.submit stamp envelope) :: deeds)) ∧
    (∀ stamp status, (w.vault.reconstruct stamp).1 = .ok status →
      ∃ session, w.vault.phase = .unsealing session ∧
        status.shareCount = Deed.countAccepted session deeds) ∧
    (∀ {clock' rng' deeds' w' session session'}, History ⟨v, clock', rng'⟩ deeds' w' →
      w.vault.phase = .unsealing session → w'.vault.phase = .unsealing session' →
      (∀ index, Deed.lastAccepted session' index deeds' = Deed.lastAccepted session index deeds) →
      ∀ stamp stamp', w'.vault.attempt stamp' = w.vault.attempt stamp) ∧
    ∀ session, w.vault.phase = .unsealing session → ∀ xs ys : List (Stamp × Envelope),
      (xs.map Prod.snd).Perm (ys.map Prod.snd) →
      (((xs.map Prod.snd).filterMap (w.vault.acceptable? session)).map Share.index).Nodup →
      ∀ stamp stamp', (w.vault.submitAll ys).attempt stamp' =
        (w.vault.submitAll xs).attempt stamp := by
  have hsound := h.sound hv
  have hsealed : v.phase = .sealed := by
    obtain ⟨-, rfl⟩ := Vault.ofSettings?_eq_ok_iff.mp hv
    rfl
  have hcollected {session : KeyPair} (hphase : w.vault.phase = .unsealing session) :
      Collected deeds w.vault session := h.collected hsealed hphase
  refine ⟨?_, hsound.shares_eq, ?_, ?_, ?_, ?_⟩
  · intro session hphase
    have hc := hcollected hphase
    exact ⟨hc.get?_eq, hc.isSome_share?, hc.exists_start⟩
  · intro stamp envelope status hstatus
    obtain ⟨⟨session, hphase, hafter⟩, hcount⟩ := Vault.shareCount_of_submit hstatus
    -- the answer counts the share itself, so it is the run with this deed that matters
    have hnext := (h.call (.submit stamp envelope)).collected hsealed hafter
    exact ⟨session, hphase, hcount.trans hnext.pending_eq⟩
  · intro stamp status hstatus
    obtain ⟨⟨session, hphase⟩, hcount⟩ := Vault.shareCount_of_reconstruct hstatus
    exact ⟨session, hphase, hcount.trans (hcollected hphase).pending_eq⟩
  · intro clock' rng' deeds' w' session session' h' hphase hphase' hlast stamp stamp'
    have hsound' := h'.sound hv
    have hc' := h'.collected hsealed hphase'
    have hshares : w'.vault.shares = w.vault.shares := by
      apply ShareMap.ext
      intro index
      rw [hc'.get?_eq, hlast, (hcollected hphase).get?_eq]
    exact Vault.attempt_congr hphase hphase' (hsound'.settings_eq.trans hsound.settings_eq.symm)
      (hsound'.identity_eq.trans hsound.identity_eq.symm) hshares stamp stamp'
  · intro session hphase xs ys hperm hnodup stamp stamp'
    obtain ⟨hx, hxsettings, hxidentity, hxshares⟩ := Vault.submitAll_eq xs hphase
    obtain ⟨hy, hysettings, hyidentity, hyshares⟩ := Vault.submitAll_eq ys hphase
    have hshares : (w.vault.submitAll ys).shares = (w.vault.submitAll xs).shares := by
      rw [hxshares, hyshares]
      exact (ShareMap.foldl_insert_perm (hperm.filterMap _) hnodup w.vault.shares).symm
    exact Vault.attempt_congr hx hy (hysettings.trans hxsettings.symm)
      (hyidentity.trans hxidentity.symm) hshares stamp stamp'

/-- Of two shares with one index that arrive in a session the second one is pending. -/
theorem History.pending_exact_of_replaced :
    ∃ (w : World fun _ : Unit => Unit) (deeds : List (Deed fun _ : Unit => Unit)),
      History (.blank _) deeds w ∧ w.vault.shares.get? 2 = some [7] ∧
        ∃ status, (w.vault.reconstruct .blank).1 = .ok status ∧ status.shareCount = 1 := by
  let session : KeyPair := ⟨.zeros 32⟩
  obtain ⟨e₁, hopen₁⟩ := World.exists_unpackShare_eq ⟨2, [5]⟩ (by decide) (by decide) (by decide)
  obtain ⟨e₂, hopen₂⟩ := World.exists_unpackShare_eq ⟨2, [7]⟩ (by decide) (by decide) (by decide)
  let x : World fun _ : Unit => Unit := .starting _
  let y := ((Operation.submit .blank e₁).run x).2
  let w := ((Operation.submit .blank e₂).run y).2
  have hx : x.vault.phase = .unsealing session := rfl
  have hfirst : x.vault.submit .blank e₁ = x.vault.keepShare .blank ⟨2, [5]⟩ :=
    Vault.submit_of_unpackShare hx hopen₁ (by decide)
  have hyv : y.vault = (x.vault.keepShare .blank ⟨2, [5]⟩).2 := congrArg Prod.snd hfirst
  have hy : y.vault.phase = .unsealing session := by rw [hyv]; exact hx
  have hsuite : y.vault.settings = .standard := by rw [hyv]; rfl
  have hsecond : y.vault.submit .blank e₂ = y.vault.keepShare .blank ⟨2, [7]⟩ :=
    Vault.submit_of_unpackShare hy (by rw [hsuite]; exact hopen₂) (by rw [hsuite]; decide)
  have hwv : w.vault = (y.vault.keepShare .blank ⟨2, [7]⟩).2 := congrArg Prod.snd hsecond
  have hw : w.vault.phase = .unsealing session := by rw [hwv]; exact hy
  let first : List (Deed fun _ : Unit => Unit) :=
    [.call x (.submit .blank e₁), .call (.blank _) (.startSession .blank)]
  let deeds : List (Deed fun _ : Unit => Unit) := .call y (.submit .blank e₂) :: first
  have hrun : History (.blank _) deeds w :=
    ((History.refl.call (.startSession .blank)).call (.submit .blank e₁)).call (.submit .blank e₂)
  have hv : Vault.ofSettings? .standard .alwaysAccept none =
      .ok (World.blank fun _ : Unit => Unit).vault := rfl
  obtain ⟨hsession, -, -, hreconstruct, -, -⟩ := hrun.pending_exact hv
  -- the last share comes first
  have hone : Deed.collected session first = [⟨2, [5]⟩] := by
    rw [Deed.collected_cons_of_accepts rfl (Deed.accepts_of_keepShare hfirst)
      (Deed.share?_eq_some hopen₁), Deed.collected_cons_of_starts rfl]
  have htwo : Deed.collected session deeds = [⟨2, [7]⟩, ⟨2, [5]⟩] := by
    rw [Deed.collected_cons_of_accepts rfl (Deed.accepts_of_keepShare hsecond)
      (Deed.share?_eq_some (by rw [hsuite]; exact hopen₂)), hone]
  have hget : w.vault.shares.get? 2 = some [7] := by
    rw [(hsession session hw).1 2, Deed.lastAccepted, htwo]
    rfl
  have hstatus : ∃ status, (w.vault.reconstruct .blank).1 = .ok status := by
    rcases Vault.reconstruct_of_unsealing .blank hw with ⟨-, h⟩ | ⟨_, -, -, h⟩ | ⟨_, -, -, h⟩
    · exact ⟨_, congrArg Prod.fst h⟩
    · exact ⟨_, congrArg Prod.fst h⟩
    · exact ⟨_, congrArg Prod.fst h⟩
  obtain ⟨status, hstatus⟩ := hstatus
  obtain ⟨session', hsession', hcount⟩ := hreconstruct .blank status hstatus
  cases hw.symm.trans hsession'
  refine ⟨w, _, hrun, hget, status, hstatus, ?_⟩
  rw [hcount, Deed.countAccepted, htwo]
  decide

end QuorumVault
