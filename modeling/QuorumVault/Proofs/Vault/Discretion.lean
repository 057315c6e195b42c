import Mathlib.Tactic
import QuorumVault.Proofs.Vault.History

/-!
# What a vault gives away

Neither the answers of a vault nor its journal tell what the bytes of a share are, nor what the
master key is.  Two vaults that are made alike and are asked the same, but are given shares of which
only the indices and the lengths agree, cannot be told apart: `Lockstep.veiled_eq`.

To veil a datum is to put zeros in the place of what must not be given away, and to leave out what
is chosen at random for each entry of the journal.  What is seen of an operation is its veiled
answer, the veiled vault after it, and the random bytes that are left; it depends only on what is
seen before the operation (`Operation.Paired.seen_eq`).
-/

namespace QuorumVault

/-! ### Veils -/

/-- As many zeros as there are bytes. -/
def Bytes.veiled (bytes : Bytes) : Bytes := List.replicate bytes.length 0

@[simp] theorem Bytes.length_veiled (bytes : Bytes) : bytes.veiled.length = bytes.length := by
  simp [veiled]

theorem Bytes.veiled_eq_iff {bytes bytes' : Bytes} :
    bytes'.veiled = bytes.veiled ↔ bytes'.length = bytes.length := by
  simp [veiled]

def Share.veiled (share : Share) : Share := { share with bytes := share.bytes.veiled }

theorem Share.index_of_veiled_eq {share share' : Share} (h : share'.veiled = share.veiled) :
    share'.index = share.index := by
  show share'.veiled.index = share.veiled.index
  rw [h]

def ShareMap.veiled (m : ShareMap) : ShareMap := ⟨fun index => (m.get? index).map Bytes.veiled⟩

/-- The envelope with zeros for its ciphertext. -/
def Envelope.veiled (e : Envelope) : Envelope := { e with cipherText := e.cipherText.veiled }

/-- The phase with a master key of zeros, if there is one. -/
def Phase.veiled : Phase → Phase
  | .sealed => .sealed
  | .unsealing session => .unsealing session
  | .unsealed session _ => .unsealed session ⟨.zeros 32⟩

/-- The entry without its identifier. -/
def Entry.anonymous (e : Entry) : Entry := { e with id := "" }

def Journal.anonymous (j : Journal) : Journal := { j with entries := j.entries.map Entry.anonymous }

/-- The answer with zeros for the ciphertext of a bundle. -/
def Answer.veiled : Answer → Answer
  | .served (.ok bundle) => .served (.ok bundle.veiled)
  | a => a

namespace Vault

variable {ι : Type} {β : ι → Type}

/-- The vault without the bytes of its shares, its keys and the tokens that it knows. -/
def veiled (v : Vault β) : Vault β :=
  { v with
    phase := v.phase.veiled
    shares := v.shares.veiled
    issuer := .ofPolicy v.settings.tokens
    journal := v.journal.anonymous }

/-- What a vault finds in the envelope of a share, if it opens it at all. -/
def found? (envelope : Envelope) (v : Vault β) : Option (Except CryptoFault Share) :=
  match v.phase with
  | .unsealing session => some (envelope.unpackShare v.settings.suite session)
  | .sealed | .unsealed _ _ => none

end Vault

/-! ### Shares -/

namespace ShareMap

theorem veiled_insert (m : ShareMap) (share : Share) :
    (m.insert share).veiled = m.veiled.insert share.veiled := by
  apply ext
  intro index
  show ((m.insert share).get? index).map Bytes.veiled = _
  by_cases h : index = share.index
  · subst h
    rw [get?_insert_self, show share.index = share.veiled.index from rfl, get?_insert_self]
    rfl
  · have h' : index ≠ share.veiled.index := h
    rw [get?_insert_of_ne m h, get?_insert_of_ne m.veiled h']
    rfl

theorem shares_veiled (m : ShareMap) : m.veiled.shares = m.shares.map Share.veiled := by
  unfold shares
  rw [List.map_filterMap]
  congr 1
  funext index
  show ((m.get? index).map Bytes.veiled).map (Share.mk index) = _
  cases m.get? index with
  | none => rfl
  | some bytes => rfl

@[simp] theorem size_veiled (m : ShareMap) : m.veiled.size = m.size := by
  rw [size, shares_veiled, List.length_map, size]

@[simp] theorem contains_veiled (m : ShareMap) (index : UInt8) :
    m.veiled.contains index = m.contains index :=
  Option.isSome_map

end ShareMap

namespace Sharing

/-- Why shares do not combine, unless they do. -/
def obstacle? (threshold : UInt8) (shares : List Share) : Option CryptoFault :=
  if shares.length < threshold.toNat then some (.combine (needed threshold shares.length))
  else if shares.any (·.bytes.isEmpty) then some (.share "A Share must be at least 2 bytes long")
  else
    match shares with
    | [] => some (.combine "Not enough shares to recover original secret")
    | first :: rest =>
      if rest.all fun s => s.bytes.length = first.bytes.length then none
      else some (.combine "All shares must have the same length")

/-- Shares combine unless there is an obstacle, which then is the fault. -/
theorem combine_cases (threshold : UInt8) (m : ShareMap) :
    (∃ secret, obstacle? threshold m.shares = none ∧ combine threshold m = .ok secret) ∨
      ∃ fault, obstacle? threshold m.shares = some fault ∧ combine threshold m = .error fault := by
  unfold combine obstacle?
  simp only
  split_ifs with hlength hempty
  · exact .inr ⟨_, rfl, rfl⟩
  · exact .inr ⟨_, rfl, rfl⟩
  · cases m.shares with
    | nil => exact .inr ⟨_, rfl, rfl⟩
    | cons first rest =>
      simp only
      split_ifs with hall
      · exact .inl ⟨_, rfl, rfl⟩
      · exact .inr ⟨_, rfl, rfl⟩

/-- What stands in the way of combining shares is not a matter of their bytes. -/
theorem obstacle?_map_veiled (threshold : UInt8) (shares : List Share) :
    obstacle? threshold (shares.map Share.veiled) = obstacle? threshold shares := by
  have hempty : (shares.map Share.veiled).any (fun s => s.bytes.isEmpty) =
      shares.any fun s => s.bytes.isEmpty := by
    rw [List.any_map]
    congr 1
    funext s
    show s.bytes.veiled.isEmpty = s.bytes.isEmpty
    cases s.bytes with
    | nil => rfl
    | cons b bytes => rfl
  have hall (first : Share) (rest : List Share) :
      ((rest.map Share.veiled).all fun s => s.bytes.length = first.veiled.bytes.length) =
        rest.all fun s => s.bytes.length = first.bytes.length := by
    rw [List.all_map]
    congr 1
    funext s
    show decide (s.bytes.veiled.length = first.bytes.veiled.length) = _
    rw [Bytes.length_veiled, Bytes.length_veiled]
  unfold obstacle?
  rw [hempty, List.length_map]
  cases shares with
  | nil => rfl
  | cons first rest =>
    simp only [List.map_cons]
    rw [hall]

/-- Shares that look the same either combine or fail for one fault. -/
theorem combine_of_veiled_eq {m m' : ShareMap} (threshold : UInt8) (h : m'.veiled = m.veiled) :
    (∃ secret secret', combine threshold m = .ok secret ∧ combine threshold m' = .ok secret') ∨
      ∃ fault, combine threshold m = .error fault ∧ combine threshold m' = .error fault := by
  have hobstacle : obstacle? threshold m'.shares = obstacle? threshold m.shares := by
    rw [← obstacle?_map_veiled, ← ShareMap.shares_veiled, h, ShareMap.shares_veiled,
      obstacle?_map_veiled]
  rcases combine_cases threshold m with ⟨secret, hm, hsecret⟩ | ⟨fault, hm, hfault⟩
  · rcases combine_cases threshold m' with ⟨secret', hm', hsecret'⟩ | ⟨fault', hm', -⟩
    · exact .inl ⟨secret, secret', hsecret, hsecret'⟩
    · rw [hm', hm] at hobstacle
      cases hobstacle
  · rcases combine_cases threshold m' with ⟨secret', hm', -⟩ | ⟨fault', hm', hfault'⟩
    · rw [hm', hm] at hobstacle
      cases hobstacle
    · rw [hm', hm] at hobstacle
      cases hobstacle
      exact .inr ⟨fault, hfault, hfault'⟩

end Sharing

/-! ### Envelopes -/

/-- The length of a ciphertext depends on the length of the message alone. -/
theorem Gcm.map_veiled_encrypt {message message' : Bytes} (key : Octets 32) (iv : Octets 16)
    (associated : Bytes) (h : message'.length = message.length) :
    (encrypt key iv associated message').map Bytes.veiled =
      (encrypt key iv associated message).map Bytes.veiled := by
  have hsome := encrypt_isSome_iff key iv associated message
  have hsome' := encrypt_isSome_iff key iv associated message'
  rw [h, ← hsome] at hsome'
  cases hc : encrypt key iv associated message with
  | none =>
    rw [hc] at hsome'
    rw [Option.not_isSome_iff_eq_none.mp fun hs => absurd (hsome'.mp hs) (by simp)]
  | some c =>
    rw [hc] at hsome'
    obtain ⟨c', hc'⟩ := Option.isSome_iff_exists.mp (hsome'.mpr rfl)
    rw [hc']
    have hlength : c'.length = c.length := by
      rw [length_of_encrypt hc', length_of_encrypt hc, h]
    exact congrArg some (Bytes.veiled_eq_iff.mpr hlength)

/-- Of two messages of one length the boxes have their initialisation vector and their length in
common, or there is no box of either. -/
theorem SecretBox.lockWith_of_length_eq {message message' : Bytes} (key : SecretKey)
    (iv : Octets 16) (associated : Bytes) (h : message'.length = message.length) :
    (lockWith key iv associated message = .error .aead ∧
      lockWith key iv associated message' = .error .aead) ∨
    ∃ c c', c'.veiled = Bytes.veiled c ∧
      lockWith key iv associated message = .ok ⟨c, iv, associated⟩ ∧
        lockWith key iv associated message' = .ok ⟨c', iv, associated⟩ := by
  have hveiled := Gcm.map_veiled_encrypt key.octets iv associated h
  unfold lockWith
  cases hc : Gcm.encrypt key.octets iv associated message with
  | none =>
    rw [hc] at hveiled
    rw [Option.map_eq_none_iff.mp hveiled]
    exact .inl ⟨rfl, rfl⟩
  | some c =>
    rw [hc] at hveiled
    obtain ⟨c', hc', hcc'⟩ := Option.map_eq_some_iff.mp hveiled
    rw [hc']
    exact .inr ⟨c, c', hcc', rfl, rfl⟩

/-- Envelopes of messages of one length are alike but for their ciphertexts, and use up the same
random bytes. -/
theorem Envelope.pack_of_length_eq {message message' : Bytes} (suite : CipherSuite)
    (recipient : PublicKey) (associated : Bytes) (rng : Entropy)
    (h : message'.length = message.length) :
    (∃ setback rng', pack suite recipient associated message rng = (.error setback, rng') ∧
      pack suite recipient associated message' rng = (.error setback, rng')) ∨
    ∃ e e' rng', e'.veiled = e.veiled ∧
      pack suite recipient associated message rng = (.ok e, rng') ∧
        pack suite recipient associated message' rng = (.ok e', rng') := by
  unfold pack
  rcases hkey : recipient.encapsulate suite rng with ⟨setback | k, rng₁⟩
  · exact .inl ⟨setback, rng₁, Drawing.bind_of_error _ hkey, Drawing.bind_of_error _ hkey⟩
  · rw [Drawing.bind_of_ok _ hkey, Drawing.bind_of_ok _ hkey]
    unfold SecretBox.lock
    rcases hiv : Drawing.octets 16 (.fault CryptoFault.random) rng₁ with ⟨setback | iv, rng₂⟩
    · left
      refine ⟨setback, rng₂, Drawing.bind_of_error _ ?_, Drawing.bind_of_error _ ?_⟩
      · exact Drawing.bind_of_error _ hiv
      · exact Drawing.bind_of_error _ hiv
    · rcases SecretBox.lockWith_of_length_eq k.key iv associated h with
        ⟨hbox, hbox'⟩ | ⟨c, c', hcc', hbox, hbox'⟩
      · left
        refine ⟨.fault .aead, rng₂, Drawing.bind_of_error _ ?_, Drawing.bind_of_error _ ?_⟩
        · rw [Drawing.bind_of_ok _ hiv, hbox]
          rfl
        · rw [Drawing.bind_of_ok _ hiv, hbox']
          rfl
      · right
        refine ⟨ofBox k.encapsulation ⟨c, iv, associated⟩,
          ofBox k.encapsulation ⟨c', iv, associated⟩, rng₂, ?_,
          (Drawing.bind_of_ok _ ?_).trans rfl, (Drawing.bind_of_ok _ ?_).trans rfl⟩
        · show ({ ofBox k.encapsulation ⟨c, iv, associated⟩ with cipherText := c'.veiled } :
            Envelope) = _
          rw [hcc']
          rfl
        · rw [Drawing.bind_of_ok _ hiv, hbox]
          rfl
        · rw [Drawing.bind_of_ok _ hiv, hbox']
          rfl

/-! ### Phases and journals -/

theorem Phase.cases_of_veiled_eq {p p' : Phase} (h : p'.veiled = p.veiled) :
    (p = .sealed ∧ p' = .sealed) ∨ (∃ session, p = .unsealing session ∧ p' = .unsealing session) ∨
      ∃ session key key', p = .unsealed session key ∧ p' = .unsealed session key' := by
  cases p with
  | sealed =>
    cases p' with
    | sealed => exact .inl ⟨rfl, rfl⟩
    | unsealing session => cases h
    | unsealed session key => cases h
  | unsealing session =>
    cases p' with
    | sealed => cases h
    | unsealing session' =>
      cases h
      exact .inr (.inl ⟨session, rfl, rfl⟩)
    | unsealed session' key => cases h
  | unsealed session key =>
    cases p' with
    | sealed => cases h
    | unsealing session' => cases h
    | unsealed session' key' =>
      obtain rfl : session' = session := (Phase.unsealed.inj h).1
      exact .inr (.inr ⟨session', key, key', rfl, rfl⟩)

namespace Entry

@[simp] theorem anonymous_ofStamp (identifier : Octets 16) (time : Timestamp) (kind : EventKind) :
    (ofStamp ⟨identifier, time⟩ kind).anonymous = ⟨"", time, kind, none, none, true, none⟩ := rfl

@[simp] theorem anonymous_withShareCount (e : Entry) (count : ℕ) :
    (e.withShareCount count).anonymous = e.anonymous.withShareCount count := rfl

@[simp] theorem anonymous_withDetails (e : Entry) (details : Json) :
    (e.withDetails details).anonymous = e.anonymous.withDetails details := rfl

@[simp] theorem anonymous_failed (e : Entry) (cause : String) :
    (e.failed cause).anonymous = e.anonymous.failed cause := rfl

end Entry

theorem Journal.anonymous_record (e : Entry) (j : Journal) :
    (j.record e).anonymous = j.anonymous.record e.anonymous := by
  unfold record anonymous limit
  simp only [List.length_map, List.map_append, List.map_cons, List.map_nil]
  split_ifs with h
  · rw [List.map_drop]
  · rfl

namespace Vault

variable {ι : Type} {β : ι → Type} {v v' : Vault β}

theorem veiled_log (e : Entry) (v : Vault β) :
    (v.log e).veiled = v.veiled.log e.anonymous := by
  show { v.veiled with journal := (v.journal.record e).anonymous } = _
  rw [Journal.anonymous_record]
  rfl

/-- Entries that differ in their identifiers only cannot be told apart. -/
theorem veiled_log_congr {e e' : Entry} (h : v'.veiled = v.veiled)
    (he : e'.anonymous = e.anonymous) : (v'.log e').veiled = (v.log e).veiled := by
  rw [veiled_log, veiled_log, h, he]

theorem settings_of_veiled_eq (h : v'.veiled = v.veiled) : v'.settings = v.settings := by
  show v'.veiled.settings = v.veiled.settings
  rw [h]

theorem policy_of_veiled_eq (h : v'.veiled = v.veiled) : v'.policy = v.policy := by
  show v'.veiled.policy = v.veiled.policy
  rw [h]

theorem identity_of_veiled_eq (h : v'.veiled = v.veiled) : v'.identity = v.identity := by
  show v'.veiled.identity = v.veiled.identity
  rw [h]

theorem servedNonce_of_veiled_eq (h : v'.veiled = v.veiled) : v'.servedNonce = v.servedNonce := by
  show v'.veiled.servedNonce = v.veiled.servedNonce
  rw [h]

theorem shares_of_veiled_eq (h : v'.veiled = v.veiled) : v'.shares.veiled = v.shares.veiled := by
  show v'.veiled.shares = v.veiled.shares
  rw [h]

theorem pending_of_veiled_eq (h : v'.veiled = v.veiled) : v'.pending = v.pending := by
  rw [pending, ← ShareMap.size_veiled, shares_of_veiled_eq h, ShareMap.size_veiled, pending]

/-- Two vaults that look the same are in the same phase, up to the master key. -/
theorem phases_of_veiled_eq (h : v'.veiled = v.veiled) :
    (v.phase = .sealed ∧ v'.phase = .sealed) ∨
      (∃ session, v.phase = .unsealing session ∧ v'.phase = .unsealing session) ∨
        ∃ session key key', v.phase = .unsealed session key ∧ v'.phase = .unsealed session key' :=
  Phase.cases_of_veiled_eq (congrArg phase h)

/-- Two vaults that look the same are in one session, or neither of them is in a session. -/
theorem sessions_of_veiled_eq (h : v'.veiled = v.veiled) :
    (∃ session, v.phase = .unsealing session ∧ v'.phase = .unsealing session) ∨
      (∀ session, v.phase ≠ .unsealing session) ∧ ∀ session, v'.phase ≠ .unsealing session := by
  rcases phases_of_veiled_eq h with ⟨hp, hp'⟩ | hsession | ⟨session, key, key', hp, hp'⟩
  · rw [hp, hp']
    exact .inr ⟨nofun, nofun⟩
  · exact .inl hsession
  · rw [hp, hp']
    exact .inr ⟨nofun, nofun⟩

theorem sessionKey_of_veiled_eq (h : v'.veiled = v.veiled) : v'.sessionKey = v.sessionKey := by
  unfold sessionKey
  rcases phases_of_veiled_eq h with ⟨hp, hp'⟩ | ⟨session, hp, hp'⟩ | ⟨session, key, key', hp, hp'⟩
  · rw [hp, hp']
  · rw [hp, hp']
  · rw [hp, hp']
    rfl

end Vault

/-! ### What is seen of an operation -/

variable {ι : Type} {β : ι → Type} {w w' : World β}

/-- What is seen of a world: the veiled vault, and the random bytes that are left. -/
def World.seen (w : World β) : Vault β × Entropy := (w.vault.veiled, w.rng)

namespace Operation

/-- What is seen of an operation: the veiled answer, and what is seen of the world after it. -/
def seen (o : Operation) (w : World β) : Answer × Vault β × Entropy :=
  ((o.run w).1.veiled, (o.run w).2.seen)

/-- Two operations in which the same is asked for at the same time.  Of two envelopes with shares,
either none is opened, or both are rejected for one fault, or both hold shares that have index and
length in common. -/
inductive Paired (w w' : World β) : Operation → Operation → Prop where
  | startSession (identifier identifier' : Octets 16) (time : Timestamp) :
      Paired w w' (.startSession ⟨identifier, time⟩) (.startSession ⟨identifier', time⟩)
  | sessionKey : Paired w w' .sessionKey .sessionKey
  | submit (identifier identifier' : Octets 16) (time : Timestamp) {envelope envelope' : Envelope}
      (hfound : (w'.vault.found? envelope').map (Except.map Share.veiled) =
        (w.vault.found? envelope).map (Except.map Share.veiled)) :
      Paired w w' (.submit ⟨identifier, time⟩ envelope) (.submit ⟨identifier', time⟩ envelope')
  | reconstruct (identifier identifier' : Octets 16) (time : Timestamp) :
      Paired w w' (.reconstruct ⟨identifier, time⟩) (.reconstruct ⟨identifier', time⟩)
  | sealOff (identifier identifier' : Octets 16) (time : Timestamp) :
      Paired w w' (.sealOff ⟨identifier, time⟩) (.sealOff ⟨identifier', time⟩)
  | serve (identifier identifier' : Octets 16) (time : Timestamp) (r : KeyRequest) :
      Paired w w' (.serve ⟨identifier, time⟩ r) (.serve ⟨identifier', time⟩ r)
  | request (identifier identifier' : Octets 16) (time : Timestamp) :
      Paired w w' (.request ⟨identifier, time⟩) (.request ⟨identifier', time⟩)

end Operation

namespace Vault

variable {v v' : Vault β}

/-- What a vault does with what it finds in an envelope. -/
def receive (stamp : Stamp) (opened : Except CryptoFault Share) (v : Vault β) :
    Except Refusal Status × Vault β :=
  match opened with
  | .error fault => v.rejectShare stamp fault.message s!"share rejected: {fault.message}"
  | .ok share =>
    if v.settings.shareCount < share.index then
      let cause := s!"share index {share.index} outside 1..={v.settings.shareCount}"
      v.rejectShare stamp cause cause
    else v.keepShare stamp share

theorem submit_eq_receive {session : KeyPair} (stamp : Stamp) (envelope : Envelope)
    (hphase : v.phase = .unsealing session) :
    v.submit stamp envelope =
      v.receive stamp (envelope.unpackShare v.settings.suite session) := by
  rw [submit, hphase]
  rfl

theorem rejectShare_of_veiled_eq (identifier identifier' : Octets 16) (time : Timestamp)
    (cause answer : String) (h : v'.veiled = v.veiled) :
    (v'.rejectShare ⟨identifier', time⟩ cause answer).1 =
        (v.rejectShare ⟨identifier, time⟩ cause answer).1 ∧
      (v'.rejectShare ⟨identifier', time⟩ cause answer).2.veiled =
        (v.rejectShare ⟨identifier, time⟩ cause answer).2.veiled := by
  have hpending := pending_of_veiled_eq h
  constructor
  · show Except.ok (Status.failure v'.pending answer) = .ok (.failure v.pending answer)
    rw [hpending]
  · show (v'.log _).veiled = (v.log _).veiled
    exact veiled_log_congr h (by simp [hpending])

theorem keepShare_of_veiled_eq (identifier identifier' : Octets 16) (time : Timestamp)
    {share share' : Share} (h : v'.veiled = v.veiled) (hshare : share'.veiled = share.veiled) :
    (v'.keepShare ⟨identifier', time⟩ share').1 = (v.keepShare ⟨identifier, time⟩ share).1 ∧
      (v'.keepShare ⟨identifier', time⟩ share').2.veiled =
        (v.keepShare ⟨identifier, time⟩ share).2.veiled := by
  have hshares := shares_of_veiled_eq h
  have hinsert : (v'.shares.insert share').veiled = (v.shares.insert share).veiled := by
    rw [ShareMap.veiled_insert, ShareMap.veiled_insert, hshares, hshare]
  have hsize : (v'.shares.insert share').size = (v.shares.insert share).size := by
    rw [← ShareMap.size_veiled, hinsert, ShareMap.size_veiled]
  have hindex := Share.index_of_veiled_eq hshare
  have hcontains : v'.shares.contains share.index = v.shares.contains share.index := by
    rw [← ShareMap.contains_veiled, hshares, ShareMap.contains_veiled]
  have hkept : veiled { v' with shares := v'.shares.insert share' } =
      veiled { v with shares := v.shares.insert share } := by
    show { v'.veiled with shares := (v'.shares.insert share').veiled } = _
    rw [h, hinsert]
    rfl
  constructor
  · show Except.ok (Status.ok (v'.shares.insert share').size) =
      .ok (.ok (v.shares.insert share).size)
    rw [hsize]
  · show (log _ { v' with shares := _ }).veiled = (log _ { v with shares := _ }).veiled
    exact veiled_log_congr hkept (by simp [hsize, hindex, hcontains])

/-- What is found in an envelope is kept or rejected without regard to the bytes of the share. -/
theorem receive_of_veiled_eq (identifier identifier' : Octets 16) (time : Timestamp)
    {opened opened' : Except CryptoFault Share} (h : v'.veiled = v.veiled)
    (hopened : opened'.map Share.veiled = opened.map Share.veiled) :
    (v'.receive ⟨identifier', time⟩ opened').1 = (v.receive ⟨identifier, time⟩ opened).1 ∧
      (v'.receive ⟨identifier', time⟩ opened').2.veiled =
        (v.receive ⟨identifier, time⟩ opened).2.veiled := by
  have hsettings := settings_of_veiled_eq h
  cases opened with
  | error fault =>
    cases opened' with
    | error fault' =>
      obtain rfl : fault' = fault := Except.error.inj hopened
      exact rejectShare_of_veiled_eq identifier identifier' time _ _ h
    | ok share' => cases hopened
  | ok share =>
    cases opened' with
    | error fault' => cases hopened
    | ok share' =>
      have hshare : share'.veiled = share.veiled := Except.ok.inj hopened
      have hindex := Share.index_of_veiled_eq hshare
      simp only [receive, hsettings, hindex]
      split_ifs with hout
      · exact rejectShare_of_veiled_eq identifier identifier' time _ _ h
      · exact keepShare_of_veiled_eq identifier identifier' time h hshare

/-- Whichever master key is installed, the vault looks the same. -/
theorem veiled_install (session : KeyPair) (key key' : SecretKey) (h : v'.veiled = v.veiled) :
    (v'.takeShares.install session key').veiled = (v.takeShares.install session key).veiled := by
  show { v'.veiled with
    phase := Phase.veiled (.unsealed session key'), shares := ShareMap.veiled .empty } = _
  rw [h]
  rfl

theorem reconstruct_of_veiled_eq (identifier identifier' : Octets 16) (time : Timestamp)
    (h : v'.veiled = v.veiled) :
    (v'.reconstruct ⟨identifier', time⟩).1 = (v.reconstruct ⟨identifier, time⟩).1 ∧
      (v'.reconstruct ⟨identifier', time⟩).2.veiled =
        (v.reconstruct ⟨identifier, time⟩).2.veiled := by
  have hpending := pending_of_veiled_eq h
  have hsettings := settings_of_veiled_eq h
  rcases sessions_of_veiled_eq h with ⟨session, hp, hp'⟩ | ⟨hne, hne'⟩
  · rw [reconstruct_eq _ hp, reconstruct_eq _ hp', hpending, hsettings]
    split_ifs with hcount
    · exact ⟨rfl, h⟩
    · rcases Sharing.combine_of_veiled_eq v.settings.threshold (shares_of_veiled_eq h) with
        ⟨secret, secret', hsecret, hsecret'⟩ | ⟨fault, hfault, hfault'⟩
      · rw [hsecret, hsecret', identity_of_veiled_eq h]
        exact ⟨rfl, veiled_log_congr (veiled_install session _ _ h) (by simp)⟩
      · rw [hfault, hfault']
        exact ⟨rfl, veiled_log_congr h (by simp)⟩
  · rw [reconstruct_of_forall_ne hne, reconstruct_of_forall_ne hne']
    exact ⟨rfl, h⟩

/-- What a request for the master key in a session comes to. -/
theorem request_of_unsealing {session : KeyPair} (stamp : Stamp) (rng : Entropy)
    (hphase : v.phase = .unsealing session) :
    v.request stamp rng =
      match Nonce.fresh rng with
      | (.error setback, rng) => (.error (setback.map .crypto), v, rng)
      | (.ok nonce, rng) =>
        match requestFor session nonce v.identity with
        | .error fault =>
          (.error (.fault (.precondition
            s!"identity layer could not sign request: {fault.message}")), v, rng)
        | .ok r =>
          (.ok r, { v with requestedNonce := some nonce }.log
            (Entry.ofStamp stamp .provisioningRequested), rng) := by
  obtain ⟨settings, policy, identity, phase, shares, served, requested, issuer, journal⟩ := v
  obtain rfl : phase = .unsealing session := hphase
  rfl

theorem veiled_claim (nonce : Nonce) (h : v'.veiled = v.veiled) :
    (v'.claim nonce).veiled = (v.claim nonce).veiled := by
  show v'.veiled.claim nonce = v.veiled.claim nonce
  rw [h]

theorem veiled_sealOff (identifier identifier' : Octets 16) (time : Timestamp)
    (h : v'.veiled = v.veiled) :
    (v'.sealOff ⟨identifier', time⟩).2.veiled = (v.sealOff ⟨identifier, time⟩).2.veiled := by
  show (log _ _).veiled = (log _ _).veiled
  apply veiled_log_congr
  · show { v'.veiled with
      phase := Phase.veiled .sealed
      shares := ShareMap.veiled .empty
      servedNonce := none
      requestedNonce := none } = _
    rw [h]
    rfl
  · simp

/-- The vault in a session that starts looks like any other. -/
theorem veiled_started (identifier identifier' : Octets 16) (time : Timestamp) (session : KeyPair)
    (h : v'.veiled = v.veiled) :
    (v'.started ⟨identifier', time⟩ session).veiled =
      (v.started ⟨identifier, time⟩ session).veiled := by
  apply veiled_log_congr
  · show { v'.veiled with
      phase := Phase.unsealing session
      shares := ShareMap.veiled .empty
      requestedNonce := none } = _
    rw [h]
    rfl
  · simp

end Vault

namespace World

theorem veiled_eq_of_seen_eq (h : w'.seen = w.seen) : w'.vault.veiled = w.vault.veiled :=
  congrArg Prod.fst h

theorem rng_eq_of_seen_eq (h : w'.seen = w.seen) : w'.rng = w.rng :=
  congrArg Prod.snd h

/-- Beside one answer the same is seen of two vaults if they look the same. -/
theorem answer_seen_congr {α : Type} {answer : α} {v v' : Vault β} {clock clock' : Clock}
    {rng : Entropy} (h : v'.veiled = v.veiled) :
    (answer, seen ⟨v', clock', rng⟩) = (answer, seen ⟨v, clock, rng⟩) := by
  show (answer, v'.veiled, rng) = (answer, v.veiled, rng)
  rw [h]

end World

namespace Operation

variable {identifier identifier' : Octets 16} {time : Timestamp}

theorem seen_startSession (h : w'.seen = w.seen) :
    (startSession ⟨identifier', time⟩).seen w' = (startSession ⟨identifier, time⟩).seen w := by
  have hveiled := World.veiled_eq_of_seen_eq h
  have hrng := World.rng_eq_of_seen_eq h
  have hstart (hnone : w.vault.phase.masterKey? = none)
      (hnone' : w'.vault.phase.masterKey? = none) :
      (startSession ⟨identifier', time⟩).seen w' = (startSession ⟨identifier, time⟩).seen w := by
    simp only [seen, run, Vault.startSession_of_masterKey_eq_none _ _ hnone,
      Vault.startSession_of_masterKey_eq_none _ _ hnone', hrng]
    rcases KeyPair.generate (ε := Refusal) w.rng with ⟨setback | session, rng⟩
    · exact World.answer_seen_congr hveiled
    · have hstarted := Vault.veiled_started identifier identifier' time session hveiled
      exact World.answer_seen_congr hstarted
  rcases Vault.phases_of_veiled_eq hveiled with
    ⟨hp, hp'⟩ | ⟨session, hp, hp'⟩ | ⟨session, key, key', hp, hp'⟩
  · exact hstart (by rw [hp]; rfl) (by rw [hp']; rfl)
  · exact hstart (by rw [hp]; rfl) (by rw [hp']; rfl)
  · simp only [seen, run, Vault.startSession, hp, hp', hrng]
    exact World.answer_seen_congr hveiled

theorem seen_sessionKey (h : w'.seen = w.seen) : sessionKey.seen w' = sessionKey.seen w := by
  show (Answer.key w'.vault.sessionKey, w'.seen) = (Answer.key w.vault.sessionKey, w.seen)
  rw [h, Vault.sessionKey_of_veiled_eq (World.veiled_eq_of_seen_eq h)]

theorem seen_submit {envelope envelope' : Envelope} (h : w'.seen = w.seen)
    (hfound : (w'.vault.found? envelope').map (Except.map Share.veiled) =
      (w.vault.found? envelope).map (Except.map Share.veiled)) :
    (submit ⟨identifier', time⟩ envelope').seen w' =
      (submit ⟨identifier, time⟩ envelope).seen w := by
  have hveiled := World.veiled_eq_of_seen_eq h
  have hrng := World.rng_eq_of_seen_eq h
  rcases Vault.sessions_of_veiled_eq hveiled with ⟨session, hp, hp'⟩ | ⟨hne, hne'⟩
  · rw [Vault.found?, Vault.found?, hp, hp'] at hfound
    have hopened := Option.some.inj hfound
    obtain ⟨hanswer, hvault⟩ :=
      Vault.receive_of_veiled_eq identifier identifier' time hveiled hopened
    simp only [seen, run, Vault.submit_eq_receive _ _ hp, Vault.submit_eq_receive _ _ hp', hrng,
      hanswer]
    exact World.answer_seen_congr hvault
  · simp only [seen, run, Vault.submit_of_forall_ne hne, Vault.submit_of_forall_ne hne', hrng]
    exact World.answer_seen_congr hveiled

theorem seen_reconstruct (h : w'.seen = w.seen) :
    (reconstruct ⟨identifier', time⟩).seen w' = (reconstruct ⟨identifier, time⟩).seen w := by
  have hveiled := World.veiled_eq_of_seen_eq h
  have hrng := World.rng_eq_of_seen_eq h
  -- the two vaults may now hold different master keys, which the veil covers
  obtain ⟨hanswer, hvault⟩ := Vault.reconstruct_of_veiled_eq identifier identifier' time hveiled
  simp only [seen, run, hrng, hanswer]
  exact World.answer_seen_congr hvault

theorem seen_sealOff (h : w'.seen = w.seen) :
    (sealOff ⟨identifier', time⟩).seen w' = (sealOff ⟨identifier, time⟩).seen w := by
  have hveiled := World.veiled_eq_of_seen_eq h
  have hrng := World.rng_eq_of_seen_eq h
  have hvault := Vault.veiled_sealOff identifier identifier' time hveiled
  simp only [seen, run, hrng]
  exact World.answer_seen_congr hvault

theorem seen_serve (r : KeyRequest) (h : w'.seen = w.seen) :
    (serve ⟨identifier', time⟩ r).seen w' = (serve ⟨identifier, time⟩ r).seen w := by
  have hveiled := World.veiled_eq_of_seen_eq h
  have hrng := World.rng_eq_of_seen_eq h
  have hsettings := Vault.settings_of_veiled_eq hveiled
  have hpolicy := Vault.policy_of_veiled_eq hveiled
  have hserved := Vault.servedNonce_of_veiled_eq hveiled
  rcases Vault.phases_of_veiled_eq hveiled with
    ⟨hp, hp'⟩ | ⟨session, hp, hp'⟩ | ⟨session, key, key', hp, hp'⟩
  · simp only [seen, run, Vault.serve, hp, hp', hrng]
    exact World.answer_seen_congr hveiled
  · simp only [seen, run, Vault.serve, hp, hp', hrng]
    exact World.answer_seen_congr hveiled
  · cases hcheck : w.vault.policy.check r with
    | error refusal =>
      have hcheck' : w'.vault.policy.check r = .error refusal := by rw [hpolicy, hcheck]
      simp only [seen, run, Vault.serve, hp, hp', hcheck, hcheck', hrng]
      exact World.answer_seen_congr (Vault.veiled_log_congr hveiled (by simp))
    | ok =>
      have hcheck' : w'.vault.policy.check r = .ok () := by rw [hpolicy, hcheck]
      cases hnonce : w.vault.servedNonce with
      | some nonce =>
        have hnonce' : w'.vault.servedNonce = some nonce := by rw [hserved, hnonce]
        simp only [seen, run, Vault.serve, hp, hp', hcheck, hcheck', hnonce, hnonce', hrng]
        exact World.answer_seen_congr (Vault.veiled_log_congr hveiled (by simp))
      | none =>
        have hnonce' : w'.vault.servedNonce = none := by rw [hserved, hnonce]
        -- the master keys differ, but not in their lengths
        have hlength : key'.toBytes.length = key.toBytes.length := by
          rw [SecretKey.toBytes, SecretKey.toBytes, Octets.length_toList, Octets.length_toList]
        rcases Envelope.pack_of_length_eq w.vault.settings.suite r.sessionKey r.nonce.toBytes w.rng
          hlength with
          ⟨setback, rng', hpack, hpack'⟩ | ⟨bundle, bundle', rng', hbundle, hpack, hpack'⟩
        · simp only [seen, run, Vault.serve_of_unsealed _ _ hp hcheck hnonce,
            Vault.serve_of_unsealed _ _ hp' hcheck' hnonce', hsettings, hrng, hpack, hpack']
          cases setback with
          | fault fault =>
            exact World.answer_seen_congr (Vault.veiled_log_congr hveiled (by simp))
          | exhausted =>
            exact World.answer_seen_congr (Vault.veiled_claim r.nonce hveiled)
        · simp only [seen, run, Vault.serve_of_unsealed _ _ hp hcheck hnonce,
            Vault.serve_of_unsealed _ _ hp' hcheck' hnonce', hsettings, hrng, hpack, hpack',
            Answer.veiled, hbundle]
          exact World.answer_seen_congr
            (Vault.veiled_log_congr (Vault.veiled_claim r.nonce hveiled) (by simp))

theorem seen_request (h : w'.seen = w.seen) :
    (request ⟨identifier', time⟩).seen w' = (request ⟨identifier, time⟩).seen w := by
  have hveiled := World.veiled_eq_of_seen_eq h
  have hrng := World.rng_eq_of_seen_eq h
  have hidentity := Vault.identity_of_veiled_eq hveiled
  rcases Vault.phases_of_veiled_eq hveiled with
    ⟨hp, hp'⟩ | ⟨session, hp, hp'⟩ | ⟨session, key, key', hp, hp'⟩
  · simp only [seen, run, Vault.request, hp, hp', hrng]
    exact World.answer_seen_congr hveiled
  · simp only [seen, run, Vault.request_of_unsealing _ _ hp, Vault.request_of_unsealing _ _ hp',
      hrng]
    rcases Nonce.fresh w.rng with ⟨setback | nonce, rng'⟩
    · exact World.answer_seen_congr hveiled
    · -- key, nonce and signer are the same on both sides
      cases hr : Vault.requestFor session nonce w.vault.identity with
      | error fault =>
        have hr' : Vault.requestFor session nonce w'.vault.identity = .error fault := by
          rw [hidentity, hr]
        simp only [hr, hr']
        exact World.answer_seen_congr hveiled
      | ok r =>
        have hr' : Vault.requestFor session nonce w'.vault.identity = .ok r := by
          rw [hidentity, hr]
        simp only [hr, hr']
        have hasked : Vault.veiled { w'.vault with requestedNonce := some nonce } =
            Vault.veiled { w.vault with requestedNonce := some nonce } := by
          show { w'.vault.veiled with requestedNonce := some nonce } = _
          rw [hveiled]
          rfl
        exact World.answer_seen_congr (Vault.veiled_log_congr hasked (by simp))
  · simp only [seen, run, Vault.request, hp, hp', hrng]
    exact World.answer_seen_congr hveiled

/-- **Unwinding**: what is seen of an operation depends only on what is seen before it. -/
theorem Paired.seen_eq {o o' : Operation} (ho : Paired w w' o o') (h : w'.seen = w.seen) :
    o'.seen w' = o.seen w := by
  cases ho with
  | startSession identifier identifier' time => exact seen_startSession h
  | sessionKey => exact seen_sessionKey h
  | submit identifier identifier' time hfound => exact seen_submit h hfound
  | reconstruct identifier identifier' time => exact seen_reconstruct h
  | sealOff identifier identifier' time => exact seen_sealOff h
  | serve identifier identifier' time r => exact seen_serve r h
  | request identifier identifier' time => exact seen_request h

end Operation

/-! ### Runs side by side -/

/-- Two runs in which the same is asked for, one operation after the other, with the two answers to
each operation, the last ones first. -/
inductive Lockstep (start start' : World β) : List (Answer × Answer) → World β → World β → Prop
  where
  | refl : Lockstep start start' [] start start'
  | step {answers : List (Answer × Answer)} {w w' : World β} {o o' : Operation}
      (h : Lockstep start start' answers w w') (ho : o.Paired w w' o') :
      Lockstep start start' (((o.run w).1, (o'.run w').1) :: answers) (o.run w).2 (o'.run w').2

namespace Lockstep

variable {start start' : World β} {answers : List (Answer × Answer)}

/-- What is seen stays the same on both sides. -/
theorem seen_eq (h : Lockstep start start' answers w w') (hstart : start'.seen = start.seen) :
    w'.seen = w.seen ∧ ∀ p ∈ answers, p.2.veiled = p.1.veiled := by
  induction h with
  | refl => exact ⟨hstart, fun p hp => absurd hp List.not_mem_nil⟩
  | @step answers w w' o o' h ho ih =>
    obtain ⟨hseen, hanswers⟩ := ih
    obtain ⟨hanswer, hnext⟩ := Prod.mk.inj (ho.seen_eq hseen)
    refine ⟨hnext, ?_⟩
    intro p hp
    rcases List.mem_cons.mp hp with rfl | hp
    · exact hanswer
    · exact hanswers p hp

/-- **Neither shares nor keys are given away.**  Let two vaults that are made alike run side by
side, with the same random bytes at their disposal, and let the same be asked of both at the same
times.  Each two shares that they open have index and length in common, whatever their bytes, or
both are rejected for the same fault.  Then their answers are the same, except for the contents of
the ciphertexts of bundles, whose lengths are the same; they are in the same phase with the same
number of pending shares; and their journals are the same, except for the identifiers of entries. -/
theorem veiled_eq {settings : Settings} {policy : Policy} {identity : Option Identity}
    {v v' : Vault β} {clock clock' : Clock} {rng : Entropy}
    (hv : Vault.ofSettings? settings policy identity = .ok v)
    (hv' : Vault.ofSettings? settings policy identity = .ok v')
    (h : Lockstep ⟨v, clock, rng⟩ ⟨v', clock', rng⟩ answers w w') :
    (∀ a a', (a, a') ∈ answers → a'.veiled = a.veiled) ∧
      w'.vault.phase.name = w.vault.phase.name ∧ w'.vault.pending = w.vault.pending ∧
        w'.vault.journal.anonymous = w.vault.journal.anonymous := by
  -- to be made alike is to be the same at the beginning
  obtain rfl : v = v' := Except.ok.inj (hv.symm.trans hv')
  obtain ⟨hseen, hanswers⟩ := h.seen_eq rfl
  have hveiled := World.veiled_eq_of_seen_eq hseen
  refine ⟨fun a a' hmem => hanswers (a, a') hmem, ?_, Vault.pending_of_veiled_eq hveiled, ?_⟩
  · rcases Vault.phases_of_veiled_eq hveiled with
      ⟨hp, hp'⟩ | ⟨session, hp, hp'⟩ | ⟨session, key, key', hp, hp'⟩
    · rw [hp, hp']
    · rw [hp, hp']
    · rw [hp, hp']
      rfl
  · show w'.vault.veiled.journal = w.vault.veiled.journal
    rw [hveiled]

/-- Two vaults are given different shares, and neither their answers nor their journals show it. -/
theorem veiled_eq_of_different_shares :
    ∃ (w w' : World fun _ : Unit => Unit) (answer answer' : Answer),
      w.vault.shares.get? 2 = some [5] ∧ w'.vault.shares.get? 2 = some [7] ∧
        answer'.veiled = answer.veiled ∧ w'.vault.pending = w.vault.pending ∧
          w'.vault.journal.anonymous = w.vault.journal.anonymous := by
  obtain ⟨e, he⟩ := World.exists_unpackShare_eq ⟨2, [5]⟩ (by decide) (by decide) (by decide)
  obtain ⟨e', he'⟩ := World.exists_unpackShare_eq ⟨2, [7]⟩ (by decide) (by decide) (by decide)
  let x : World fun _ : Unit => Unit := .starting _
  have hx : x.vault.phase = .unsealing ⟨.zeros 32⟩ := rfl
  have hfound : (x.vault.found? e').map (Except.map Share.veiled) =
      (x.vault.found? e).map (Except.map Share.veiled) := by
    rw [Vault.found?, Vault.found?, hx]
    show some (Except.map _ (e'.unpackShare .aes256Gcm _)) =
      some (Except.map _ (e.unpackShare .aes256Gcm _))
    rw [he, he']
    rfl
  have hrun : Lockstep (.blank _) (.blank _) _ _ _ :=
    (Lockstep.refl.step (.startSession (.zeros 16) (.zeros 16) (.ofSeconds 0))).step
      (.submit (.zeros 16) (.zeros 16) (.ofSeconds 0) hfound)
  have hv : Vault.ofSettings? .standard .alwaysAccept none =
      .ok (World.blank fun _ : Unit => Unit).vault := rfl
  obtain ⟨hanswers, -, hpending, hjournal⟩ := hrun.veiled_eq hv hv
  have hkept : x.vault.submit .blank e = x.vault.keepShare .blank ⟨2, [5]⟩ := by
    rw [Vault.submit_eq_receive _ _ hx]
    show x.vault.receive _ (e.unpackShare .aes256Gcm _) = _
    rw [he]
    rfl
  have hkept' : x.vault.submit .blank e' = x.vault.keepShare .blank ⟨2, [7]⟩ := by
    rw [Vault.submit_eq_receive _ _ hx]
    show x.vault.receive _ (e'.unpackShare .aes256Gcm _) = _
    rw [he']
    rfl
  refine ⟨_, _, _, _, ?_, ?_, hanswers _ _ List.mem_cons_self, hpending, hjournal⟩
  · show (x.vault.submit .blank e).2.shares.get? 2 = _
    rw [hkept]
    rfl
  · show (x.vault.submit .blank e').2.shares.get? 2 = _
    rw [hkept']
    rfl

end Lockstep

end QuorumVault
