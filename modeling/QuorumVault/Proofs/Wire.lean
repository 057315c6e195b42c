import Mathlib.Tactic
import QuorumVault.Attestation.Request
import QuorumVault.Envelope
import QuorumVault.Proofs.Json.Record
import QuorumVault.Proofs.Text.Base64
import QuorumVault.Proofs.Token.Handle
import QuorumVault.Vault.Status

/-!
# What goes over the wire

Envelopes, requests, answers, keys, nonces and tokens are read from their JSON texts as what they
were (`Wire.reads_back`), whatever bytes and characters they hold.  Those that are written as
objects are also read from every other object that is as good (`Decode.Record.Loosens`).
-/

namespace QuorumVault

/-! ### Single values -/

theorem Base64.octets?_encode {n : ℕ} (octets : Octets n) :
    octets? n (standard.encode octets.toList) = .ok octets := by
  have hdecode := (decode?_eq_some_iff unambiguous_standard).mpr
    (Eq.refl (standard.encode octets.toList))
  unfold octets?
  rw [hdecode]
  simp only [Octets.ofBytes?_toList]

namespace Decode

theorem parsed_reread {α : Type} {parse : String → Except String α} {text : String} {a : α}
    (h : parse text = .ok a) : parsed parse (Draft.reread (.string text)) = .ok a := by
  simp only [parsed, parsedAs, Draft.reread, textAs, ofReading, Bind.bind, Except.bind, h]

theorem bytes_reread (b : Bytes) :
    bytes (Draft.reread (.string (Base64.standard.encode b))) = .ok b := by
  have hdecode := (Base64.decode?_eq_some_iff Base64.unambiguous_standard).mpr
    (Eq.refl (Base64.standard.encode b))
  simp only [bytes, text, textAs, Draft.reread, ofReading, Bind.bind, Except.bind, hdecode]

theorem count_reread {n : ℕ} (h : n ≤ 0xffffffffffffffff) :
    count (Draft.reread (.nat n)) = .ok n := by
  have hnumber := Draft.ofNumber_integer (i := n) (by omega) (by omega)
  show count (Draft.ofNumber (.integer n)) = _
  rw [hnumber]
  simp [count, nat, ofReading, h, Bind.bind, Except.bind]

theorem octets_reread (form : Form) {n : ℕ} (o : Octets n) :
    octets form n (Draft.reread (.array (o.toList.map fun b => .nat b.toNat))) = .ok o := by
  have hitems (l : Bytes) : Draft.rereadItems (l.map fun b => .nat b.toNat) =
      Draft.itemsOfJson (l.map fun b => .nat b.toNat) := by
    induction l with
    | nil => rfl
    | cons b l ih =>
      have hb := b.toNat_lt
      have hnumber := Draft.ofNumber_integer (i := b.toNat) (by omega) (by omega)
      simp only [List.map_cons, Draft.rereadItems, Draft.itemsOfJson, ih]
      exact congrArg (· :: _) hnumber
  have hoctets := octets_ofJson form o
  rw [Draft.ofJson, ← hitems] at hoctets
  exact hoctets

end Decode

theorem PublicKey.reader_reread (key : PublicKey) : reader (Draft.reread key.toJson) = .ok key := by
  apply Decode.parsed_reread
  unfold ofText? text
  rw [Base64.octets?_encode]

theorem Nonce.reader_reread (nonce : Nonce) : reader (Draft.reread nonce.toJson) = .ok nonce := by
  apply Decode.parsed_reread
  unfold ofText? text toBytes
  rw [Base64.octets?_encode]

/-! ### Records -/

open Decode.Record

/-- The text of an object is read as a value, and so is that of every other one that a record takes
for it. -/
def Decode.ReadsBack {α : Type} (reader : Form → Reader α) (r : Record α) (json : Json) (a : α) :
    Prop :=
  ofText reader json.text = .ok a ∧ ∀ json', Loosens r json json' → ofText reader json'.text = .ok a

theorem Decode.readsBack_of_build {α : Type} {r : Form → Record α} (hr : (r .text).Regular)
    (name : String) {a : α} {base : List (String × Json)} (hnames : (r .text).names.Nodup)
    (hbase : (base.map Prod.fst).Sublist (r .text).names)
    (hbuild : (r .text).build (fun n => (base.map (Prod.map id Draft.reread)).lookup n) = .ok a) :
    ReadsBack (fun form => (r form).read form name) (r .text) (.object base) a := by
  have hread (json : Json) (h : Loosens (r .text) (.object base) json) :
      ofText (fun form => (r form).read form name) json.text = .ok a := by
    refine ofText_of_build hr name hbuild (hbase.nodup hnames) ?_ h
    exact fun p hp => hbase.subset (List.mem_map_of_mem hp)
  exact ⟨hread _ (.refl _ _), hread⟩

theorem Envelope.readsBack (name : String) (e : Envelope) :
    Decode.ReadsBack (fun form => record.read form name) record e.toJson e := by
  have hregular : record.Regular :=
    regular_seq (regular_seq (regular_map _ (regular_required _ _)) (regular_required _ _))
      (regular_required _ _)
  apply Decode.readsBack_of_build (r := fun _ => record) hregular name
  · show ["encapsulation", "iv", "cipherText"].Nodup
    decide
  · exact List.Sublist.refl _
  · exact build_seq (build_seq (build_map _ (build_required rfl (Decode.bytes_reread _)))
      (build_required rfl (Decode.bytes_reread _))) (build_required rfl (Decode.bytes_reread _))

theorem KeyRequest.readsBack (r : KeyRequest) :
    Decode.ReadsBack reader record r.toJson r := by
  have hregular : record.Regular :=
    regular_seq (regular_seq (regular_map _ (regular_required _ _)) (regular_required _ _))
      (regular_optional _ _ _)
  have hnames : record.names.Nodup := by
    show ["sessionKey", "nonce", "signature"].Nodup
    decide
  obtain ⟨key, nonce, signature⟩ := r
  cases signature with
  | none =>
    apply Decode.readsBack_of_build (r := fun _ => record) hregular "ProvisioningRequest" hnames
    · show ["sessionKey", "nonce"].Sublist ["sessionKey", "nonce", "signature"]
      decide
    · exact build_seq (build_seq (build_map _ (build_required rfl (PublicKey.reader_reread key)))
        (build_required rfl (Nonce.reader_reread nonce))) (build_optional_of_none _ rfl)
  | some s =>
    have hsignature : Decode.nullable Decode.bytes
        (Draft.reread (.string (Base64.standard.encode s))) = .ok (some s) :=
      congrArg (Except.map some) (Decode.bytes_reread s)
    apply Decode.readsBack_of_build (r := fun _ => record) hregular "ProvisioningRequest" hnames
    · exact List.Sublist.refl _
    · exact build_seq (build_seq (build_map _ (build_required rfl (PublicKey.reader_reread key)))
        (build_required rfl (Nonce.reader_reread nonce))) (build_optional_of_some _ rfl hsignature)

theorem Status.readsBack {s : Status} (h : s.shareCount ≤ 0xffffffffffffffff) :
    Decode.ReadsBack reader record s.toJson s := by
  have hregular : record.Regular :=
    regular_seq (regular_seq (regular_map _ (regular_required _ _)) (regular_required _ _))
      (regular_required _ _)
  apply Decode.readsBack_of_build (r := fun _ => record) hregular "Status"
  · show ["success", "shareCount", "message"].Nodup
    decide
  · exact List.Sublist.refl _
  · exact build_seq (build_seq (build_map _ (build_required (a := s.success) rfl rfl))
      (build_required rfl (Decode.count_reread h))) (build_required rfl rfl)

theorem UnwrapStatus.readsBack {s : UnwrapStatus} (h : s.shareCount ≤ 0xffffffffffffffff) :
    Decode.ReadsBack reader record s.toJson s := by
  have hregular : record.Regular :=
    regular_seq (regular_seq (regular_seq (regular_map _ (regular_required _ _))
      (regular_required _ _)) (regular_optional _ _ _)) (regular_required _ _)
  have hnames : record.names.Nodup := by
    show ["success", "shareCount", "identifierDigest", "message"].Nodup
    decide
  obtain ⟨success, shareCount, digest, message⟩ := s
  cases digest with
  | none =>
    apply Decode.readsBack_of_build (r := fun _ => record) hregular "UnwrapStatus" hnames
    · show ["success", "shareCount", "message"].Sublist
        ["success", "shareCount", "identifierDigest", "message"]
      decide
    · exact build_seq (build_seq (build_seq (build_map _ (build_required (a := success) rfl rfl))
        (build_required rfl (Decode.count_reread h))) (build_optional_of_none _ rfl))
        (build_required rfl rfl)
  | some d =>
    have hdigest : Decode.nullable Decode.bytes
        (Draft.reread (.string (Base64.standard.encode d))) = .ok (some d) :=
      congrArg (Except.map some) (Decode.bytes_reread d)
    apply Decode.readsBack_of_build (r := fun _ => record) hregular "UnwrapStatus" hnames
    · exact List.Sublist.refl _
    · exact build_seq (build_seq (build_seq (build_map _ (build_required (a := success) rfl rfl))
        (build_required rfl (Decode.count_reread h))) (build_optional_of_some _ rfl hdigest))
        (build_required rfl rfl)

theorem TokenHandle.readsBack (h : TokenHandle) :
    Decode.ReadsBack reader (record .text) h.toJson h := by
  apply Decode.readsBack_of_build (r := record) (regular_record .text) "HashedToken"
  · show ["hash", "token"].Nodup
    decide
  · exact List.Sublist.refl _
  · exact build_record rfl rfl (Decode.octets_reread .text h.digest) rfl

theorem KeyRequest.mayOmit_signature : record.MayOmit "signature" := by
  constructor
  · show "signature" ∈ ["sessionKey", "nonce", "signature"]
    decide
  · intro field hfield hname
    have hfields : field ∈ [_, _, _] := hfield
    simp only [List.mem_cons, List.not_mem_nil, or_false] at hfields
    rcases hfields with rfl | rfl | rfl
    · exact absurd hname (by decide)
    · exact absurd hname (by decide)
    · decide

theorem UnwrapStatus.mayOmit_identifierDigest : record.MayOmit "identifierDigest" := by
  constructor
  · show "identifierDigest" ∈ ["success", "shareCount", "identifierDigest", "message"]
    decide
  · intro field hfield hname
    have hfields : field ∈ [_, _, _, _] := hfield
    simp only [List.mem_cons, List.not_mem_nil, or_false] at hfields
    rcases hfields with rfl | rfl | rfl | rfl
    · exact absurd hname (by decide)
    · exact absurd hname (by decide)
    · decide
    · exact absurd hname (by decide)

/-! ### The wire -/

/-- **Round trip**: whatever goes over the wire is read from its text as what it was.  An object is
also read so if its members are in another order, if there are others that are unknown, whatever
they hold, and if the signature of a request or the digest of an answer is null where it is left
out. -/
theorem Wire.reads_back :
    (∀ e : Envelope, Decode.ReadsBack Envelope.shareReader Envelope.record e.toJson e ∧
      Decode.ReadsBack Envelope.bundleReader Envelope.record e.toJson e) ∧
    (∀ r : KeyRequest, Decode.ReadsBack KeyRequest.reader KeyRequest.record r.toJson r) ∧
    KeyRequest.record.MayOmit "signature" ∧
    (∀ s : Status, s.shareCount ≤ 0xffffffffffffffff →
      Decode.ReadsBack Status.reader Status.record s.toJson s) ∧
    (∀ s : UnwrapStatus, s.shareCount ≤ 0xffffffffffffffff →
      Decode.ReadsBack UnwrapStatus.reader UnwrapStatus.record s.toJson s) ∧
    UnwrapStatus.record.MayOmit "identifierDigest" ∧
    (∀ h : TokenHandle,
      Decode.ReadsBack TokenHandle.reader (TokenHandle.record .text) h.toJson h) ∧
    (∀ key : PublicKey, Decode.ofText (fun _ => PublicKey.reader) key.toJson.text = .ok key) ∧
    (∀ nonce : Nonce, Decode.ofText (fun _ => Nonce.reader) nonce.toJson.text = .ok nonce) ∧
    ∀ token : String,
      Decode.ofText (fun _ => Decode.text) (Json.string token).text = .ok token := by
  refine ⟨?_, KeyRequest.readsBack, KeyRequest.mayOmit_signature, fun s h => Status.readsBack h,
    fun s h => UnwrapStatus.readsBack h, UnwrapStatus.mayOmit_identifierDigest,
    TokenHandle.readsBack, ?_, ?_, ?_⟩
  · intro e
    exact ⟨e.readsBack "EncryptedShare", e.readsBack "ProvisioningBundle"⟩
  · intro key
    rw [Decode.ofText_text, key.reader_reread]
  · intro nonce
    rw [Decode.ofText_text, nonce.reader_reread]
  · intro token
    rw [Decode.ofText_text]
    rfl

/-- An answer without a digest is read with its members the other way round, a null for the digest
and an unknown member between them. -/
theorem Wire.reads_back_of_reversed :
    Decode.ofText UnwrapStatus.reader (Json.object [("message", .string "say \"\n\""),
      ("identifierDigest", .null), ("retry", .array [.number (.decimal ⟨true, 1, -1⟩), .null]),
      ("shareCount", .nat 0xffffffffffffffff), ("success", .bool false)]).text =
        .ok ⟨false, 0xffffffffffffffff, none, "say \"\n\""⟩ := by
  have hreversed (a b c d e : String × Json) : [a, b, c, d, e].Perm [e, d, a, b, c] := by
    have h : ([a, b, c] ++ [d, e]).Perm ([d, e] ++ [a, b, c]) := List.perm_append_comm
    exact h.trans (List.Perm.swap e d [a, b, c])
  obtain ⟨-, -, -, -, hstatus, homit, -⟩ := Wire.reads_back
  refine (hstatus ⟨false, 0xffffffffffffffff, none, "say \"\n\""⟩ (Nat.le_refl _)).2 _ ?_
  refine .intro [("identifierDigest", .null)]
    [("retry", .array [.number (.decimal ⟨true, 1, -1⟩), .null])] ?_ ?_ ?_ ?_
  · exact hreversed _ _ _ _ _
  · decide
  · intro p hp
    obtain rfl := List.mem_singleton.mp hp
    refine ⟨rfl, ?_, homit⟩
    show "identifierDigest" ∉ ["success", "shareCount", "message"]
    decide
  · intro p hp
    obtain rfl := List.mem_singleton.mp hp
    show "retry" ∉ ["success", "shareCount", "identifierDigest", "message"]
    decide

end QuorumVault
