import Mathlib.Tactic
import QuorumVault.Proofs.Json.Record
import QuorumVault.Proofs.Token.Verdicts

/-!
# Handles that are read

A handle that is made from a text has the digest of that text.  A handle that is read has whatever
digest is written (`TokenHandle.reader_ofJson`), and the issuer, which looks verdicts up by digest,
then takes it for the token to which the digest belongs (`Issuer.valid_of_digest_eq`).
-/

namespace QuorumVault

/-! ### Reading what was written -/

namespace Decode

theorem byte_ofJson (b : UInt8) : byte (Draft.ofJson (.nat b.toNat)) = .ok b := by
  have hb : b.toNat ≤ 255 := Nat.le_of_lt_succ b.toNat_lt
  simp [byte, nat, Json.nat, Draft.ofJson, ofReading, hb, Except.map, Bind.bind, Except.bind]

theorem takeBytes_ofJson (expected : String) (close : Option Json.Fault) (index : ℕ)
    (bytes : Bytes) :
    takeBytes expected close bytes.length index
        (Draft.itemsOfJson (bytes.map fun b => .nat b.toNat)) = .ok (bytes, []) := by
  induction bytes generalizing index with
  | nil => rfl
  | cons b bytes ih =>
    simp only [List.length_cons, List.map_cons, Draft.itemsOfJson, takeBytes, byte_ofJson]
    simp only [Bind.bind, Except.bind, ih]

theorem octets_ofJson {n : ℕ} (form : Form) (o : Octets n) :
    octets form n (Draft.ofJson (.array (o.toList.map fun b => .nat b.toNat))) = .ok o := by
  have htake := takeBytes_ofJson s!"an array of length {n}" none 0 o.toList
  rw [o.length_toList] at htake
  simp only [Draft.ofJson, octets, htake, Bind.bind, Except.bind, noMore, closing]
  rw [Octets.ofBytes?_toList]

end Decode

namespace TokenHandle

open Decode.Record

theorem regular_record (form : Decode.Form) : (record form).Regular :=
  regular_seq (regular_map _ (regular_required _ _)) (regular_required _ _)

theorem build_record {form : Decode.Form} {find : String → Option Draft} {digest text : Draft}
    {h : TokenHandle} (hdigest : find "hash" = some digest) (htext : find "token" = some text)
    (hdigest' : Decode.octets form 32 digest = .ok h.digest)
    (htext' : Decode.text text = .ok h.text) : (record form).build find = .ok h :=
  build_seq (build_map _ (build_required hdigest hdigest')) (build_required htext htext')

/-- Whatever digest stands beside a text, the two are read as a handle. -/
theorem reader_ofJson (form : Decode.Form) (h : TokenHandle) :
    reader form (Draft.ofJson h.toJson) = .ok h := by
  let members : List (String × Draft) :=
    [("hash", Draft.ofJson (.array (h.digest.toList.map fun b => .nat b.toNat))),
      ("token", Draft.ofJson (.string h.text))]
  have hbuild : (record form).build (fun n => members.lookup n) = .ok h :=
    build_record rfl rfl (Decode.octets_ofJson form h.digest) rfl
  have hnodup : (members.map Prod.fst).Nodup := by
    show ["hash", "token"].Nodup
    decide
  have hknown : ∀ p ∈ members, p.1 ∈ (record form).names :=
    fun p hp => List.mem_map_of_mem hp
  have hperm : members.Perm (members ++ [] ++ []) := by simp
  refine read_of_build (regular_record form) form "HashedToken" hbuild hnodup hknown ?_ ?_ ?_ hperm
  · exact List.nodup_nil
  · exact fun p hp => absurd hp List.not_mem_nil
  · exact fun p hp => absurd hp List.not_mem_nil

/-- A handle whose digest belongs to another text is read as it stands. -/
theorem digest_ne_of_read :
    ∃ h, Decode.ofJson reader (.object
        [("hash", .array ((ofText "abc").digest.toList.map fun b => .nat b.toNat)),
          ("token", .string "abd")]) = .ok h ∧ h.digest ≠ (ofText h.text).digest :=
  ⟨⟨(ofText "abc").digest, "abd"⟩, reader_ofJson .value ⟨(ofText "abc").digest, "abd"⟩,
    by decide +kernel⟩

end TokenHandle

/-! ### Verdicts on handles with the same digest -/

namespace Issuer

variable {ι : Type} {β : ι → Type} {now : Clock} {h t : TokenHandle} {a b : Issuer β}
  {installation : Installation}

/-- What is remembered of a token is looked up by its digest alone. -/
theorem remembered_of_digest_eq (hdigest : h.digest = t.digest) (now : Clock) (a : Issuer β) :
    a.remembered now h = a.remembered now t := by
  unfold remembered reject
  rw [hdigest]

theorem valid_of_remembered {payload : Sigma β} (hinstalled : a.installed = some installation)
    (hrejected : a.rejected.contains now.running h.digest = false)
    (hremembered : a.remembered now h = (some payload, b)) : a.valid now h = (true, b) := by
  unfold valid
  rw [hinstalled]
  dsimp only
  rw [hrejected, hremembered]
  rfl

theorem present_of_remembered [DecidableEq ι] {i : ι} {value : β i}
    (hinstalled : a.installed = some installation)
    (hrejected : a.rejected.contains now.running h.digest = false)
    (hremembered : a.remembered now h = (some ⟨i, value⟩, b)) :
    a.present now h i = (.remembered value, b) := by
  unfold present
  rw [hinstalled]
  dsimp only
  rw [hrejected, hremembered]
  dsimp only
  rw [ofType?_eq_some_iff.mpr rfl]
  rfl

/-- If nothing is remembered of a token then it is verified, and remembered as refused if it is not.
-/
theorem valid_of_verify_eq_error {fault : TokenFault} (hinstalled : a.installed = some installation)
    (hrejected : a.rejected.contains now.running h.digest = false)
    (hremembered : a.remembered now h = (none, b))
    (hverify : Token.verify installation.keys h.text now.wall a.maxAge = .error fault) :
    a.valid now h = (false, b.reject now h) := by
  have hsame := sameButVerdicts_remembered now h a
  rw [hremembered] at hsame
  have hcurrent : b.isCurrent installation.serial = true :=
    isCurrent_iff.mpr ⟨installation, hsame.installed.trans hinstalled, rfl⟩
  unfold valid
  rw [hinstalled]
  dsimp only
  rw [hrejected, hremembered]
  dsimp only
  rw [hsame.maxAge, hverify]
  dsimp only
  rw [rejectUnder, if_pos hcurrent]
  rfl

/-- **Crossed verdicts.**  Take a handle with any text and with the digest of another one.  It is
read as it stands.  As long as a payload is remembered of the token with the other text, the handle
is called valid and that payload is given for it, whatever its own text.  If nothing is remembered,
and the text of the handle is not verified, then presenting the handle has the token with the other
text refused for the lifetime of refusals, valid or not. -/
theorem valid_of_digest_eq [DecidableEq ι] {text : String}
    (hdigest : h.digest = (TokenHandle.ofText text).digest)
    (hinstalled : a.installed = some installation)
    (hrejected : a.rejected.contains now.running h.digest = false) :
    (∀ form, TokenHandle.reader form (Draft.ofJson h.toJson) = .ok h) ∧
    (∀ i value, (a.remembered now (.ofText text)).1 = some ⟨i, value⟩ →
      (a.valid now h).1 = true ∧ (a.present now h i).1 = .remembered value) ∧
    ∀ fault later, (a.remembered now (.ofText text)).1 = none →
      Token.verify installation.keys h.text now.wall a.maxAge = .error fault →
      later.running.nanos - now.running.nanos < a.rejected.ttl.nanos →
        ((a.valid now h).2.valid later (.ofText text)).1 = false := by
  refine ⟨fun form => TokenHandle.reader_ofJson form h, fun i value hvalue => ?_,
    fun fault later hnone hverify hlater => ?_⟩
  · rw [← remembered_of_digest_eq hdigest] at hvalue
    have hremembered : a.remembered now h = (some ⟨i, value⟩, (a.remembered now h).2) :=
      Prod.ext hvalue rfl
    rw [valid_of_remembered hinstalled hrejected hremembered,
      present_of_remembered hinstalled hrejected hremembered]
    exact ⟨rfl, rfl⟩
  · rw [← remembered_of_digest_eq hdigest] at hnone
    have hsame := sameButVerdicts_remembered now h a
    have hcontains : ((a.remembered now h).2.reject now h).rejected.contains later.running
        (TokenHandle.ofText text).digest = true := by
      rw [← hdigest]
      refine TimedCache.contains_put _ ?_
      rw [hsame.ttl_rejected]
      exact hlater
    rw [valid_of_verify_eq_error hinstalled hrejected (Prod.ext hnone rfl) hverify,
      valid_of_contains hcontains]

/-- A token that is verified is refused after a handle with its digest and no text was presented. -/
theorem valid_of_digest_eq_empty :
    ∃ text verified, let a : Issuer fun _ : Unit => Bytes :=
        (ofPolicy .standard).install ⟨.zeros 32⟩
      let now : Clock := ⟨.ofSeconds 0, ⟨0⟩⟩
      let h : TokenHandle := ⟨(TokenHandle.ofText text).digest, ""⟩
      Decode.ofJson TokenHandle.reader h.toJson = .ok h ∧
      Token.verify (TokenKeys.derive ⟨.zeros 32⟩) text now.wall none = .ok verified ∧
      (a.valid now (.ofText text)).1 = true ∧
      ((a.valid now h).2.valid now (.ofText text)).1 = false := by
  obtain ⟨text, htext⟩ : ∃ text,
      Token.Writes (.derive ⟨.zeros 32⟩) [] (.ofSeconds 0) (.zeros 16) text :=
    Token.exists_writes_iff.mpr (by decide)
  have hcal : (Timestamp.ofSeconds 0).IsCalendarSecond := ⟨rfl, by decide, by decide⟩
  have hdecode : Token.decode (.derive ⟨.zeros 32⟩) text (.ofSeconds 0) none = .ok _ :=
    Token.decode_of_writes htext hcal rfl
  obtain ⟨verified, hverify⟩ := Token.exists_verify_of_decode hdecode
  let a : Issuer fun _ : Unit => Bytes := (ofPolicy .standard).install ⟨.zeros 32⟩
  let now : Clock := ⟨.ofSeconds 0, ⟨0⟩⟩
  let h : TokenHandle := ⟨(TokenHandle.ofText text).digest, ""⟩
  have hrejected : a.rejected.contains now.running h.digest = false := rfl
  obtain ⟨hread, -, hcrossed⟩ := valid_of_digest_eq (h := h) rfl rfl hrejected
  exact ⟨text, verified, hread .value, hverify, valid_install_of_writes htext hcal rfl,
    hcrossed _ now rfl rfl (by decide)⟩

end Issuer

end QuorumVault
