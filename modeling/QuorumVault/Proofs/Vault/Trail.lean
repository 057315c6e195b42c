import Mathlib.Tactic
import QuorumVault.Proofs.Vault.Serving

/-!
# The journal tells the state

The phase of a vault, the number of pending shares, whether it has answered a request and whether
it waits for an answer are what its journal tells (`trail`): each of them is given by the last entry
that has a say in it (`lastOf`), or by whether an entry of one kind follows the last one of another
(`Follows`).  An operation records at most one entry, and one that records none changes nothing of
this.

There is one exception.  An answer to a request that breaks off for want of a private key counts as
an answer, but nothing is recorded of it.

What is recorded is the list of entries that the deeds of a history leave (`Deed.recorded`); the
journal holds as many of them, from the last one on, as it has room for.
-/

namespace QuorumVault

/-! ### Reading a list from its end -/

section

variable {α γ : Type} {f : α → Option γ} {default : γ} {p q : α → Prop} {entries : List α} {e : α}

/-- The value that the last entry with a value has. -/
def lastOf (f : α → Option γ) (default : γ) (entries : List α) : γ :=
  (entries.filterMap f).getLastD default

/-- After the last entry with `q` there is one with `p`. -/
def Follows (p q : α → Prop) (entries : List α) : Prop :=
  ∃ before e after, entries = before ++ e :: after ∧ p e ∧ ∀ x ∈ after, ¬q x

/-- Every entry is as `P` says, given those before it. -/
def Throughout (P : List α → α → Prop) (entries : List α) : Prop :=
  ∀ before e after, entries = before ++ e :: after → P before e

theorem lastOf_append :
    lastOf f default (entries ++ [e]) = (f e).getD (lastOf f default entries) := by
  unfold lastOf
  rw [List.filterMap_append]
  cases h : f e with
  | none => simp [h]
  | some a => simp [h]

theorem not_follows_nil : ¬Follows p q [] := by
  rintro ⟨before, e, after, h, -⟩
  exact List.append_ne_nil_of_right_ne_nil before (List.cons_ne_nil e after) h.symm

theorem follows_append : Follows p q (entries ++ [e]) ↔ p e ∨ Follows p q entries ∧ ¬q e := by
  constructor
  · rintro ⟨before, x, after, h, hx, hafter⟩
    rcases List.eq_nil_or_concat after with rfl | ⟨after, y, rfl⟩
    · obtain ⟨-, rfl⟩ := List.append_singleton_inj.mp h
      exact .inl hx
    · rw [List.concat_eq_append] at h hafter
      rw [← List.cons_append, ← List.append_assoc] at h
      obtain ⟨rfl, rfl⟩ := List.append_singleton_inj.mp h
      refine .inr ⟨⟨before, x, after, rfl, hx, ?_⟩, ?_⟩
      · intro z hz
        exact hafter z (List.mem_append_left _ hz)
      · exact hafter e (List.mem_append_right _ List.mem_cons_self)
  · rintro (hp | ⟨⟨before, x, after, rfl, hx, hafter⟩, hq⟩)
    · exact ⟨entries, e, [], rfl, hp, fun z hz => absurd hz List.not_mem_nil⟩
    · refine ⟨before, x, after ++ [e], by simp, hx, ?_⟩
      intro z hz
      rcases List.mem_append.mp hz with hz | hz
      · exact hafter z hz
      · rw [List.mem_singleton.mp hz]
        exact hq

theorem Throughout.append {P : List α → α → Prop} (h : Throughout P entries) (he : P entries e) :
    Throughout P (entries ++ [e]) := by
  intro before x after hsplit
  rcases List.eq_nil_or_concat after with rfl | ⟨after, y, rfl⟩
  · obtain ⟨rfl, rfl⟩ := List.append_singleton_inj.mp hsplit
    exact he
  · rw [List.concat_eq_append, ← List.cons_append, ← List.append_assoc] at hsplit
    obtain ⟨rfl, rfl⟩ := List.append_singleton_inj.mp hsplit
    exact h before x after rfl

/-! The same with one entry more, or none. -/

theorem lastOf_append_toList (entry : Option α) :
    lastOf f default (entries ++ entry.toList) =
      (entry.bind f).getD (lastOf f default entries) := by
  cases entry with
  | none => rw [Option.toList_none, List.append_nil, Option.bind_none, Option.getD_none]
  | some e => rw [Option.toList_some, lastOf_append, Option.bind_some]

theorem follows_append_toList (entry : Option α) :
    Follows p q (entries ++ entry.toList) ↔
      (∃ e ∈ entry, p e) ∨ Follows p q entries ∧ ∀ e ∈ entry, ¬q e := by
  cases entry with
  | none => simp
  | some e => simp [follows_append]

theorem Throughout.append_toList {P : List α → α → Prop} {entry : Option α}
    (h : Throughout P entries) (he : ∀ e ∈ entry, P entries e) :
    Throughout P (entries ++ entry.toList) := by
  cases entry with
  | none =>
    rw [Option.toList_none, List.append_nil]
    exact h
  | some e => exact h.append (he e rfl)

end

/-! ### What an entry tells -/

namespace Entry

@[simp] theorem kind_ofStamp (stamp : Stamp) (kind : EventKind) :
    (ofStamp stamp kind).kind = kind := rfl

@[simp] theorem kind_withShareCount (e : Entry) (count : ℕ) :
    (e.withShareCount count).kind = e.kind := rfl

@[simp] theorem kind_withDetails (e : Entry) (details : Json) :
    (e.withDetails details).kind = e.kind := rfl

@[simp] theorem kind_failed (e : Entry) (cause : String) : (e.failed cause).kind = e.kind := rfl

/-- The phase in which an entry leaves the vault. -/
def phase? (e : Entry) : Option String :=
  match e.kind with
  | .unsealStarted => some "unsealing"
  | .unsealed => some "unsealed"
  | .sealed => some "sealed"
  | .provisioned => if e.success then some "unsealed" else none
  | _ => none

/-- The number of shares that are pending after an entry. -/
def pending? (e : Entry) : Option ℕ :=
  match e.kind with
  | .unsealStarted => some 0
  | .unsealed => some 0
  | .sealed => some 0
  | .provisioned => if e.success then some 0 else none
  | .shareAccepted => e.shareCount
  | _ => none

def IsStart (e : Entry) : Prop := e.kind = .unsealStarted

def IsSeal (e : Entry) : Prop := e.kind = .sealed

/-- A request is answered with the master key. -/
def IsAnswer (e : Entry) : Prop := e.kind = .provisioningServed ∧ e.success = true

def IsRequest (e : Entry) : Prop := e.kind = .provisioningRequested

/-- An answer is no longer waited for. -/
def EndsRequest (e : Entry) : Prop :=
  e.kind = .unsealStarted ∨ e.kind = .sealed ∨ e.kind = .provisioned

/-- A share with an index is accepted; it replaces another one or not. -/
def Accepts (index : UInt8) (replaced : Bool) (e : Entry) : Prop :=
  e.kind = .shareAccepted ∧
    e.details = some (.object [("index", .nat index.toNat), ("replaced", .bool replaced)])

theorem Accepts.index_eq {e : Entry} {i j : UInt8} {b c : Bool} (h : e.Accepts i b)
    (h' : e.Accepts j c) : i = j := by
  have hdetails := Option.some.inj (h.2.symm.trans h'.2)
  simp only [Json.object.injEq, List.cons.injEq, Prod.mk.injEq, Json.nat, Json.number.injEq,
    Json.Number.integer.injEq, Int.natCast_inj, true_and] at hdetails
  exact UInt8.toNat_inj.mp hdetails.1

/-- An entry tells of shares as those before it do. -/
def TellsShares (before : List Entry) (e : Entry) : Prop :=
  (e.kind = .shareRejected ∨ e.kind = .unwrapFailed →
    e.shareCount = some (lastOf pending? 0 before)) ∧
  (e.kind = .shareAccepted → ∃ index replaced, e.Accepts index replaced ∧
    (replaced = true ↔ Follows (fun x => ∃ b, x.Accepts index b) IsStart before))

end Entry

/-! ### What an operation tells -/

variable {ι : Type} {β : ι → Type} {v u : Vault β} {w : World β} {deeds : List (Deed β)}
  {o : Operation} {a : Answer} {entry : Option Entry}

namespace Outcome

theorem phase_eq (h : Outcome v o a entry u) :
    u.phase.name = (entry.bind Entry.phase?).getD v.phase.name := by
  cases h with
  | keep hphase hopen hindex => rfl
  | _ => rfl

theorem pending_eq (h : Outcome v o a entry u) :
    u.pending = (entry.bind Entry.pending?).getD v.pending := by
  cases h with
  | start session hphase => exact ShareMap.size_empty
  | reconstruct masterKey hphase => exact ShareMap.size_empty
  | sealOff => exact ShareMap.size_empty
  | takeOver hphase hnonce hempty hopen => exact ShareMap.size_empty
  | _ => rfl

/-- In a session that starts there are no shares, and in one that goes on the same ones and the one
that is accepted. -/
theorem shares_cases {session : KeyPair} (h : Outcome v o a entry u)
    (hphase : u.phase = .unsealing session) :
    (u.shares = .empty ∧ ∃ e ∈ entry, e.IsStart) ∨
    (v.phase = u.phase ∧ (∀ e ∈ entry, ¬e.IsStart) ∧ ∀ index, u.shares.contains index = true ↔
      (∃ e ∈ entry, ∃ b, e.Accepts index b) ∨ v.shares.contains index = true) := by
  cases h with
  | start session hphase' => exact .inl ⟨rfl, _, rfl, rfl⟩
  | @keep stamp envelope session share hphase' hopen hindex =>
    refine .inr ⟨rfl, ?_, ?_⟩
    · simp [Entry.IsStart]
    · intro index
      rw [ShareMap.contains_insert]
      refine or_congr_left ⟨?_, ?_⟩
      · rintro rfl
        exact ⟨_, rfl, _, rfl, rfl⟩
      · rintro ⟨e, he, b, haccepts⟩
        rw [← Option.some.inj he] at haccepts
        exact haccepts.index_eq ⟨rfl, rfl⟩
  | reconstruct masterKey hphase' => cases hphase
  | takeOver hphase' hnonce hempty hopen => cases hphase
  | sealOff => cases hphase
  | _ =>
    refine .inr ⟨rfl, ?_, ?_⟩
    · simp [Entry.IsStart]
    · simp [Entry.Accepts, Vault.claim]

/-- An entry on shares tells of those that the vault has had before. -/
theorem tells (h : Outcome v o a entry u) : ∀ e ∈ entry,
    (e.kind = .shareRejected ∨ e.kind = .unwrapFailed → e.shareCount = some v.pending) ∧
    (e.kind = .shareAccepted → ∃ session index, v.phase = .unsealing session ∧
      e.Accepts index (v.shares.contains index)) := by
  cases h with
  | @keep stamp envelope session share hphase hopen hindex =>
    intro e he
    rw [← Option.some.inj he]
    exact ⟨by simp, fun _ => ⟨session, share.index, hphase, rfl, rfl⟩⟩
  | reject hphase cause answer =>
    intro e he
    rw [← Option.some.inj he]
    exact ⟨fun _ => rfl, by simp⟩
  | noCombine cause answer =>
    intro e he
    rw [← Option.some.inj he]
    exact ⟨fun _ => rfl, by simp⟩
  | _ => simp

theorem isAnswer_iff (h : Outcome v o a entry u) :
    (∃ e ∈ entry, e.IsAnswer) ↔ a.handsOver = true := by
  cases h with
  | @serve stamp r session masterKey bundle rng rng' hphase hserved hpack =>
    refine iff_of_true ⟨_, rfl, rfl, rfl⟩ ?_
    rw [Answer.handsOver, Envelope.isEmpty_of_pack hpack]
    rfl
  | noPack fault =>
    refine iff_of_false ?_ Bool.false_ne_true
    rintro ⟨e, he, -, hsuccess⟩
    rw [← Option.some.inj he] at hsuccess
    cases hsuccess
  | decline => simp [Entry.IsAnswer, Answer.handsOver, Envelope.isEmpty, Envelope.empty]
  | _ => simp [Entry.IsAnswer, Answer.handsOver]

theorem isSeal_iff (h : Outcome v o a entry u) : (∃ e ∈ entry, e.IsSeal) ↔ o.isSeal = true := by
  cases h with
  | sealOff => exact iff_of_true ⟨_, rfl, rfl⟩ rfl
  | _ => simp [Entry.IsSeal, Operation.isSeal]

theorem requestedNonce_iff (h : Outcome v o a entry u) :
    u.requestedNonce.isSome = true ↔
      (∃ e ∈ entry, e.IsRequest) ∨
        v.requestedNonce.isSome = true ∧ ∀ e ∈ entry, ¬e.EndsRequest := by
  cases h with
  | _ => simp [Entry.IsRequest, Entry.EndsRequest, Vault.install, Vault.claim]

/-- Nothing is recorded only of what changes nothing, or breaks off. -/
theorem same_of_eq_none (h : Outcome v o a none u) : a.breaksOff = true ∨
    u.phase = v.phase ∧ u.shares = v.shares ∧ u.servedNonce = v.servedNonce ∧
      u.requestedNonce = v.requestedNonce := by
  cases h with
  | breakOff hphase hserved => exact .inl rfl
  | _ => exact .inr ⟨rfl, rfl, rfl, rfl⟩

end Outcome

/-! ### What has been recorded -/

/-- An operation records one entry at most. -/
theorem Operation.length_records_le (o : Operation) (w : World β) : (o.records w).length ≤ 1 := by
  obtain ⟨entry, u, -, -, hrecords⟩ := o.exists_outcome w
  rw [hrecords]
  exact Option.length_toList_le

namespace Deed

def records : Deed β → List Entry
  | call w o => o.records w
  | present _ _ _ => []

/-- What is recorded of deeds, the first entry first. -/
def recorded : List (Deed β) → List Entry
  | [] => []
  | d :: deeds => recorded deeds ++ d.records

theorem length_recorded_le (deeds : List (Deed β)) : (recorded deeds).length ≤ deeds.length := by
  induction deeds with
  | nil => exact le_rfl
  | cons d deeds ih =>
    have hone : d.records.length ≤ 1 := by
      cases d with
      | call w o => exact o.length_records_le w
      | present w t i => exact Nat.zero_le 1
    rw [recorded, List.length_append, List.length_cons]
    exact Nat.add_le_add ih hone

end Deed

namespace Journal

theorem capacity_recordAll (entries : List Entry) (j : Journal) :
    (j.recordAll entries).capacity = j.capacity := by
  induction entries generalizing j with
  | nil => rfl
  | cons e entries ih => exact ih (j.record e)

theorem recordAll_append (entries more : List Entry) (j : Journal) :
    j.recordAll (entries ++ more) = (j.recordAll entries).recordAll more :=
  List.foldl_append

/-- A journal that was empty holds the last entries, as many as it has room for. -/
theorem entries_recordAll (capacity : ℕ) (entries : List Entry) :
    ((empty capacity).recordAll entries).entries =
      entries.drop (entries.length - max capacity 1) := by
  induction entries using List.reverseRecOn with
  | nil =>
    rw [List.drop_nil]
    rfl
  | append_singleton entries e ih =>
    have hlimit : ((empty capacity).recordAll entries).limit = max capacity 1 := by
      rw [limit, capacity_recordAll]
      rfl
    have hpos : 1 ≤ max capacity 1 := le_max_right capacity 1
    rw [recordAll_append]
    change (record e _).entries = _
    rw [record, hlimit, ih, List.length_drop, List.length_append, List.length_singleton]
    by_cases hroom : entries.length < max capacity 1
    · -- there is room for the entry
      have hfirst : entries.length - max capacity 1 = 0 := by omega
      have hlast : entries.length + 1 - max capacity 1 = 0 := by omega
      rw [hfirst, hlast, List.drop_zero, List.drop_zero, if_neg (by omega)]
    · have hfull : entries.length - (entries.length - max capacity 1) = max capacity 1 := by omega
      have hlast : entries.length + 1 - max capacity 1 =
          entries.length - max capacity 1 + 1 := by omega
      rw [if_pos hfull, List.drop_drop, hlast, List.drop_append_of_le_length (by omega)]

end Journal

/-! ### The invariant -/

/-- What has been recorded tells what the vault is like. -/
structure Told (deeds : List (Deed β)) (v : Vault β) : Prop where
  phase_eq : v.phase.name = lastOf Entry.phase? "sealed" (Deed.recorded deeds)
  pending_eq : v.pending = lastOf Entry.pending? 0 (Deed.recorded deeds)
  requestedNonce_iff : v.requestedNonce.isSome = true ↔
    Follows Entry.IsRequest Entry.EndsRequest (Deed.recorded deeds)
  answer_iff : Follows Entry.IsAnswer Entry.IsSeal (Deed.recorded deeds) ↔
    ∃ d ∈ Deed.since Deed.isSeal deeds, d.handsOver = true
  /-- The shares of a session are those that have been accepted since it was started. -/
  contains_iff : ∀ session, v.phase = .unsealing session → ∀ index,
    v.shares.contains index = true ↔
      Follows (fun e => ∃ b, e.Accepts index b) Entry.IsStart (Deed.recorded deeds)
  tellsShares : Throughout Entry.TellsShares (Deed.recorded deeds)

namespace Told

theorem fresh (settings : Settings) (policy : Policy) (identity : Option Identity) :
    Told [] (Vault.fresh settings policy identity : Vault β) where
  phase_eq := rfl
  pending_eq := ShareMap.size_empty
  requestedNonce_iff := iff_of_false Bool.false_ne_true not_follows_nil
  answer_iff := by
    refine iff_of_false not_follows_nil ?_
    rintro ⟨d, hd, -⟩
    cases hd
  contains_iff session hphase := by cases hphase
  tellsShares before e after h := by
    exact absurd h.symm (List.append_ne_nil_of_right_ne_nil before (List.cons_ne_nil e after))

/-- Since the last seal an answer has been recorded if there was one, one operation later as well.
-/
theorem answer_iff_call (h : Told deeds w.vault)
    (houtcome : Outcome w.vault o (o.run w).1 entry u) :
    (∃ e ∈ entry, e.IsAnswer) ∨
        Follows Entry.IsAnswer Entry.IsSeal (Deed.recorded deeds) ∧ (∀ e ∈ entry, ¬e.IsSeal) ↔
      ∃ d ∈ Deed.since Deed.isSeal (.call w o :: deeds), d.handsOver = true := by
  cases hseal : (Deed.call w o).isSeal with
  | true =>
    obtain ⟨e, he, hkind⟩ := houtcome.isSeal_iff.mpr hseal
    rw [Deed.since_cons_of_eq_true hseal]
    refine iff_of_false ?_ ?_
    · rintro (⟨e', he', hkind', -⟩ | ⟨-, hall⟩)
      · -- the one entry that is recorded is not of both kinds
        cases Option.mem_unique he he'
        cases hkind.symm.trans hkind'
      · exact hall e he hkind
    · rintro ⟨d, hd, -⟩
      cases hd
  | false =>
    have hnone : ∀ e ∈ entry, ¬e.IsSeal := by
      intro e he hkind
      have htrue : o.isSeal = true := houtcome.isSeal_iff.mp ⟨e, he, hkind⟩
      rw [Deed.isSeal, htrue] at hseal
      cases hseal
    have hanswer : (Deed.call w o).handsOver = (o.run w).1.handsOver := rfl
    rw [Deed.since_cons_of_eq_false hseal, houtcome.isAnswer_iff, ← hanswer, h.answer_iff]
    simp only [List.mem_cons, exists_eq_or_imp, and_iff_left hnone]

/-- The shares of a session are told one operation later as well. -/
theorem contains_iff_call {session : KeyPair} (h : Told deeds w.vault)
    (houtcome : Outcome w.vault o (o.run w).1 entry u) (hphase : u.phase = .unsealing session)
    (index : UInt8) :
    u.shares.contains index = true ↔ (∃ e ∈ entry, ∃ b, e.Accepts index b) ∨
      Follows (fun e => ∃ b, e.Accepts index b) Entry.IsStart (Deed.recorded deeds) ∧
        ∀ e ∈ entry, ¬e.IsStart := by
  rcases houtcome.shares_cases hphase with ⟨hempty, e, he, hstart⟩ | ⟨hsame, hnone, hshares⟩
  · rw [hempty]
    refine iff_of_false Bool.false_ne_true ?_
    rintro (⟨e', he', b, haccepts, -⟩ | ⟨-, hall⟩)
    · cases Option.mem_unique he he'
      cases hstart.symm.trans haccepts
    · exact hall e he hstart
  · rw [hshares index, h.contains_iff session (hsame.trans hphase) index, and_iff_left hnone]

/-- Every operation keeps the invariant. -/
theorem call (h : Told deeds w.vault) (houtcome : Outcome w.vault o (o.run w).1 entry u)
    (hrecords : o.records w = entry.toList) : Told (.call w o :: deeds) u := by
  have hrecorded : Deed.recorded (.call w o :: deeds) = Deed.recorded deeds ++ entry.toList := by
    rw [Deed.recorded, Deed.records, hrecords]
  constructor
  · rw [hrecorded, lastOf_append_toList, ← h.phase_eq, houtcome.phase_eq]
  · rw [hrecorded, lastOf_append_toList, ← h.pending_eq, houtcome.pending_eq]
  · rw [hrecorded, follows_append_toList, ← h.requestedNonce_iff, houtcome.requestedNonce_iff]
  · rw [hrecorded, follows_append_toList]
    exact h.answer_iff_call houtcome
  · intro session hphase index
    rw [hrecorded, follows_append_toList]
    exact h.contains_iff_call houtcome hphase index
  · rw [hrecorded]
    refine h.tellsShares.append_toList ?_
    intro e he
    obtain ⟨hcount, haccepted⟩ := houtcome.tells e he
    constructor
    · rw [← h.pending_eq]
      exact hcount
    · intro hkind
      obtain ⟨session, index, hphase, haccepts⟩ := haccepted hkind
      exact ⟨index, _, haccepts, h.contains_iff session hphase index⟩

theorem present {t : TokenHandle} {i : ι} (h : Told deeds v) :
    Told (.present w t i :: deeds) v := by
  have hrecorded : Deed.recorded (.present w t i :: deeds) = Deed.recorded deeds :=
    List.append_nil _
  have hsince := Deed.since_cons_of_eq_false (d := .present w t i) (p := Deed.isSeal) rfl deeds
  constructor
  · rw [hrecorded]
    exact h.phase_eq
  · rw [hrecorded]
    exact h.pending_eq
  · rw [hrecorded]
    exact h.requestedNonce_iff
  · rw [hrecorded, hsince, h.answer_iff]
    simp [Deed.handsOver]
  · rw [hrecorded]
    exact h.contains_iff
  · rw [hrecorded]
    exact h.tellsShares

theorem of_eq (h : Told deeds v) (hphase : u.phase = v.phase) (hshares : u.shares = v.shares)
    (hnonce : u.requestedNonce = v.requestedNonce) : Told deeds u where
  phase_eq := by rw [hphase, h.phase_eq]
  pending_eq := by rw [Vault.pending, hshares, ← h.pending_eq, Vault.pending]
  requestedNonce_iff := by rw [hnonce, h.requestedNonce_iff]
  answer_iff := h.answer_iff
  contains_iff := by
    rw [hphase, hshares]
    exact h.contains_iff
  tellsShares := h.tellsShares

end Told

namespace History

variable [DecidableEq ι] {start : World β}

theorem told (h : History start deeds w) (hstart : Told [] start.vault) : Told deeds w.vault := by
  refine h.induct (motive := Told) hstart ?_ ?_ ?_
  · intro deeds w o entry u houtcome hrecords htold
    exact (htold.call houtcome hrecords).of_eq (Vault.phase_logged entry u)
      (Vault.shares_logged entry u) (Vault.requestedNonce_logged entry u)
  · intro deeds w t i htold
    exact htold.present
  · intro deeds v issuer htold
    exact htold.of_eq rfl rfl rfl

/-- The journal holds what has been recorded, as far as it has room for it. -/
theorem journal_eq {capacity : ℕ} (h : History start deeds w)
    (hstart : start.vault.journal = .empty capacity) :
    w.vault.journal = (Journal.empty capacity).recordAll (Deed.recorded deeds) := by
  refine h.induct
    (motive := fun deeds v => v.journal = (Journal.empty capacity).recordAll (Deed.recorded deeds))
    hstart ?_ ?_ ?_
  · intro deeds w o entry u houtcome hrecords hkept
    have hu : u.journal = (Journal.empty capacity).recordAll (Deed.recorded deeds) :=
      houtcome.journal_eq.trans hkept
    rw [Deed.recorded, Deed.records, hrecords, Journal.recordAll_append, ← hu]
    cases entry with
    | none => rfl
    | some e => rfl
  · intro deeds w t i hkept
    rw [Deed.recorded, Deed.records, List.append_nil]
    exact hkept
  · intro deeds v issuer hkept
    exact hkept

theorem entries_eq {capacity : ℕ} (h : History start deeds w)
    (hstart : start.vault.journal = .empty capacity)
    (hroom : (Deed.recorded deeds).length ≤ capacity) :
    w.vault.journal.entries = Deed.recorded deeds := by
  have hnone : (Deed.recorded deeds).length - max capacity 1 = 0 :=
    Nat.sub_eq_zero_of_le (le_trans hroom (le_max_left _ _))
  rw [h.journal_eq hstart, Journal.entries_recordAll, hnone, List.drop_zero]

end History

/-! ### The journal tells the state -/

/-- **The journal tells the state.**  Let a vault run from its making on.  Its journal holds what
has been recorded, as long as it has room for it.  The phase is the one of the last entry that
starts, ends or unseals a session, and the number of pending shares the one of the last entry that
changes it; entries on rejected shares carry the number that those before them tell, and the entry
on an accepted share says whether one with the same index has been accepted since the session was
started.  The vault has answered a request if an answer has been recorded since the last seal, or
has broken off since, and waits for an answer if a request has been recorded since the last start,
seal or end of a request.  Each operation records one entry at most, and if it records none it
changes none of this unless an answer breaks off. -/
theorem History.trail [DecidableEq ι] {settings : Settings} {policy : Policy}
    {identity : Option Identity} {v : Vault β} {clock : Clock} {rng : Entropy}
    (hv : Vault.ofSettings? settings policy identity = .ok v)
    (h : History ⟨v, clock, rng⟩ deeds w) :
    ((Deed.recorded deeds).length ≤ settings.auditCapacity →
      w.vault.journal.entries = Deed.recorded deeds) ∧
    w.vault.phase.name = lastOf Entry.phase? "sealed" (Deed.recorded deeds) ∧
    w.vault.pending = lastOf Entry.pending? 0 (Deed.recorded deeds) ∧
    Throughout Entry.TellsShares (Deed.recorded deeds) ∧
    (w.vault.servedNonce.isSome = true ↔
      Follows Entry.IsAnswer Entry.IsSeal (Deed.recorded deeds) ∨
        ∃ d ∈ Deed.since Deed.isSeal deeds, d.breaksOff = true) ∧
    (w.vault.requestedNonce.isSome = true ↔
      Follows Entry.IsRequest Entry.EndsRequest (Deed.recorded deeds)) ∧
    ∀ o : Operation, (o.run w).2.vault.journal = w.vault.journal.recordAll (o.records w) ∧
      (o.records w).length ≤ 1 ∧
        (o.records w = [] → (o.run w).1.breaksOff = false →
          (o.run w).2.vault.phase = w.vault.phase ∧ (o.run w).2.vault.shares = w.vault.shares ∧
            (o.run w).2.vault.servedNonce = w.vault.servedNonce ∧
              (o.run w).2.vault.requestedNonce = w.vault.requestedNonce) := by
  obtain ⟨-, rfl⟩ := Vault.ofSettings?_eq_ok_iff.mp hv
  have htold : Told deeds w.vault := h.told (.fresh settings policy identity)
  have hserved : Served deeds w.vault := h.served rfl
  refine ⟨h.entries_eq rfl, htold.phase_eq, htold.pending_eq, htold.tellsShares, ?_,
    htold.requestedNonce_iff, ?_⟩
  · rw [hserved.isSome_iff, htold.answer_iff]
    simp only [and_or_left, exists_or]
  · intro o
    refine ⟨o.journal_run w, o.length_records_le w, ?_⟩
    intro hnone hbreak
    obtain ⟨entry, u, houtcome, hvault, hrecords⟩ := o.exists_outcome w
    rw [hrecords, Option.toList_eq_nil_iff] at hnone
    subst hnone
    rw [hvault]
    rcases houtcome.same_of_eq_none with hbreak' | hsame
    · rw [hbreak] at hbreak'
      cases hbreak'
    · exact hsame

/-- A vault that has taken the master key of a peer over is unsealed, and so its journal says. -/
theorem History.trail_of_takeOver :
    ∃ (w : World fun _ : Unit => Unit) (deeds : List (Deed fun _ : Unit => Unit)),
      History (.blank _) deeds w ∧ deeds.length = 3 ∧
        w.vault.journal.entries = Deed.recorded deeds ∧
          lastOf Entry.phase? "sealed" (Deed.recorded deeds) = "unsealed" ∧
            w.vault.servedNonce.isSome = false := by
  obtain ⟨bundle, session, rng, rng', -, htake⟩ :=
    World.exists_run_takeOver_asking (fun _ : Unit => Unit) ⟨.zeros 32⟩
  have hw := History.refl.taken htake
  have hv : Vault.ofSettings? .standard .alwaysAccept none =
      .ok (World.blank fun _ : Unit => Unit).vault := rfl
  obtain ⟨hentries, hphase, -⟩ := hw.trail hv
  have hroom : 3 ≤ Settings.standard.auditCapacity := by decide
  exact ⟨_, _, hw, rfl, hentries ((Deed.length_recorded_le _).trans hroom), hphase.symm, rfl⟩

/-- An answer that breaks off is not told: of a vault that counts one no answer has been
recorded. -/
theorem History.not_trail_of_breakOff :
    ∃ (w : World fun _ : Unit => Unit) (deeds : List (Deed fun _ : Unit => Unit)),
      History (.blank _) deeds w ∧
        (Deed.recorded deeds).length ≤ w.vault.settings.auditCapacity ∧
          w.vault.journal.entries = Deed.recorded deeds ∧ w.vault.servedNonce.isSome = true ∧
            ¬Follows Entry.IsAnswer Entry.IsSeal w.vault.journal.entries := by
  let start : World fun _ : Unit => Unit := .blank _
  obtain ⟨bundle, session, rng, rng', -, htake⟩ :=
    World.exists_run_takeOver_asking (fun _ : Unit => Unit) ⟨.zeros 32⟩
  -- the source has nothing left for the private key of an answer
  have hdry := (History.refl.taken htake).elsewhere start.clock ⟨fun _ => 0, some 0, 0⟩
  have hw := hdry.call (.serve .blank World.asked)
  have hroom : 4 ≤ Settings.standard.auditCapacity := by decide
  have hentries := hw.entries_eq rfl ((Deed.length_recorded_le _).trans hroom)
  refine ⟨_, _, hw, (Deed.length_recorded_le _).trans hroom, hentries, rfl, ?_⟩
  rw [hentries, (hw.told (.fresh .standard .alwaysAccept none)).answer_iff]
  rintro ⟨d, hd, hover⟩
  have hnone : d.handsOver = false := by
    rcases List.mem_cons.mp (List.takeWhile_subset _ hd) with rfl | hd
    · rfl
    · rw [List.append_nil] at hd
      exact (Deed.handsOver_of_mem_first htake hd).1
  rw [hover] at hnone
  cases hnone

end QuorumVault
