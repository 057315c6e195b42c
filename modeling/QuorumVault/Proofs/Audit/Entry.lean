import Mathlib.Tactic
import QuorumVault.Audit.Entry
import QuorumVault.Proofs.Time.Rfc3339
import QuorumVault.Proofs.Wire

/-!
# Entries read from their texts

An entry as a vault records it (`Entry.IsRecordable`) is read from its JSON text as it was, field by
field (`Entry.reader_reread`).  Its identifier and the cause of a failure may hold any characters;
its details are an object of texts, truth values and integers in the order of their names, which is
the order in which objects are kept.
-/

namespace QuorumVault

/-! ### Objects in the order of their names -/

namespace Json

variable {members acc : List (String × Json)}

/-- A text, a truth value or an integer of 64 bits. -/
inductive IsScalar : Json → Prop where
  | string (text : String) : IsScalar (.string text)
  | bool (b : Bool) : IsScalar (.bool b)
  | integer {i : ℤ} (hlow : -0x8000000000000000 ≤ i) (hhigh : i < 0x10000000000000000) :
    IsScalar (.int i)

/-- Members in the order of their names, no name coming twice. -/
def AreSorted (members : List (String × Json)) : Prop := members.Pairwise fun p q => p.1 < q.1

instance (members : List (String × Json)) : Decidable (AreSorted members) :=
  inferInstanceAs (Decidable (members.Pairwise _))

theorem insertMember_of_lt {name : String} (value : Json) (h : ∀ p ∈ acc, p.1 < name) :
    insertMember name value acc = acc ++ [(name, value)] := by
  induction acc with
  | nil => rfl
  | cons p acc ih =>
    obtain ⟨n, v⟩ := p
    obtain ⟨hlt, hrest⟩ := List.forall_mem_cons.mp h
    have hlt : n < name := hlt
    rw [insertMember, if_neg (String.lt_asymm hlt), if_neg (String.ne_of_lt hlt).symm,
      ih hrest]
    rfl

/-- Members that are in the order of their names stay where they are. -/
theorem sorted_of_areSorted (h : AreSorted members) : sorted members = members := by
  unfold sorted
  induction members using List.reverseRecOn with
  | nil => rfl
  | append_singleton members p ih =>
    obtain ⟨hsorted, -, hlt⟩ := List.pairwise_append.mp h
    rw [List.foldl_append, ih hsorted]
    exact insertMember_of_lt p.2 fun q hq => hlt q hq p (List.mem_singleton_self p)

end Json

namespace Draft

theorem reread_int {i : ℤ} (hlow : -0x8000000000000000 ≤ i) (hhigh : i < 0x10000000000000000) :
    reread (.int i) = .number (.ok (.integer i)) none :=
  ofNumber_integer hlow hhigh

theorem toJson?_reread_of_isScalar {json : Json} (h : json.IsScalar) (depth : ℕ) :
    (reread json).toJson? depth = .ok json := by
  cases h with
  | string text => rfl
  | bool b => rfl
  | integer hlow hhigh =>
    rw [reread_int hlow hhigh]
    rfl

theorem membersToJson?_reread {members : List (String × Json)} (depth : ℕ)
    (h : ∀ p ∈ members, p.2.IsScalar) :
    membersToJson? depth (rereadMembers members) = .ok members := by
  induction members with
  | nil => rfl
  | cons p members ih =>
    obtain ⟨name, value⟩ := p
    obtain ⟨hvalue, hrest⟩ := List.forall_mem_cons.mp h
    have hread := toJson?_reread_of_isScalar hvalue depth
    simp only [rereadMembers, membersToJson?, Draft.name, hread, ih hrest, Bind.bind, Except.bind]

end Draft

/-! ### Readers -/

namespace Decode

theorem nullable_text_reread (text : Option String) :
    nullable Decode.text (Draft.reread (.option .string text)) = .ok text := by
  cases text with
  | none => rfl
  | some text => rfl

theorem nullable_count_reread {count : Option ℕ} (h : ∀ n ∈ count, n ≤ 0xffffffffffffffff) :
    nullable Decode.count (Draft.reread (.option .nat count)) = .ok count := by
  cases count with
  | none => rfl
  | some n =>
    have hn := h n rfl
    have hread := count_reread hn
    have hnumber : Draft.reread (.nat n) = .number (.ok (.integer n)) none :=
      Draft.reread_int (by omega) (by omega)
    rw [hnumber] at hread
    show nullable Decode.count (Draft.reread (.nat n)) = _
    rw [hnumber]
    exact congrArg (Except.map some) hread

theorem nullable_any_reread_object {members : List (String × Json)}
    (hsorted : Json.AreSorted members) (hscalar : ∀ p ∈ members, p.2.IsScalar) :
    nullable any (Draft.reread (.object members)) = .ok (some (.object members)) := by
  have hread : (Draft.reread (.object members)).toJson? (Draft.maxDepth - 1) =
      .ok (.object members) := by
    show (Draft.object (Draft.rereadMembers members) none).toJson? 126 = _
    simp only [Draft.toJson?, Draft.membersToJson?_reread _ hscalar, Bind.bind, Except.bind,
      Json.sorted_of_areSorted hsorted]
  show (ofReading ((Draft.reread (.object members)).toJson? (Draft.maxDepth - 1))).map some = _
  rw [hread]
  rfl

theorem Record.build_optional {α : Type} {find : String → Option Draft} {name : String}
    {reader : Reader α} {d : Draft} {a : Option α} (fallback : Fallback)
    (hfind : find name = some d) (hreader : nullable reader d = .ok a) :
    (optional name fallback reader).build find = .ok a := by
  simp only [optional, hfind, hreader]

end Decode

theorem EventKind.reader_reread (form : Decode.Form) (kind : EventKind) :
    reader form (Draft.reread kind.toJson) = .ok kind := by
  cases kind <;> rfl

/-! ### Entries -/

namespace Entry

/-- An entry as a vault records it.  The time is one of the calendar, which has the years 0 to 9999
and more. -/
structure IsRecordable (e : Entry) : Prop where
  inCalendar : e.time.InCalendar
  fraction : e.time.HasRegularFraction
  shareCount : ∀ n ∈ e.shareCount, n ≤ 0xffffffffffffffff
  details : ∀ json ∈ e.details, ∃ members, json = .object members ∧ Json.AreSorted members ∧
    ∀ p ∈ members, p.2.IsScalar

variable {e : Entry}

theorem timeOfText?_text (h : e.IsRecordable) : timeOfText? e.time.text = .ok e.time := by
  rw [timeOfText?, Timestamp.ofText?_text h.inCalendar h.fraction]

theorem nullable_details (h : e.IsRecordable) :
    Decode.nullable Decode.any (Draft.reread (e.details.getD .null)) = .ok e.details := by
  cases hdetails : e.details with
  | none => rfl
  | some json =>
    obtain ⟨members, rfl, hsorted, hscalar⟩ := h.details json hdetails
    exact Decode.nullable_any_reread_object hsorted hscalar

open Decode.Record

theorem regular_record (form : Decode.Form) : (record form).Regular :=
  regular_seq (regular_seq (regular_seq (regular_seq (regular_seq (regular_seq
    (regular_map _ (regular_required _ _)) (regular_required _ _)) (regular_required _ _))
      (regular_optional _ _ _)) (regular_optional _ _ _)) (regular_required _ _))
        (regular_optional _ _ _)

/-- **Entries**: an entry is read from its text as it was. -/
theorem readsBack (h : e.IsRecordable) : Decode.ReadsBack reader (record .text) e.toJson e := by
  have htime : Decode.parsedAs "an RFC 3339 formatted date and time string" timeOfText?
      (Draft.reread (.string e.time.text)) = .ok e.time := by
    simp only [Decode.parsedAs, Draft.reread, Decode.textAs, Decode.ofReading, Bind.bind,
      Except.bind, timeOfText?_text h]
  apply Decode.readsBack_of_build (r := record) (regular_record .text) "AuditEvent"
  · show ["event_id", "timestamp", "event_type", "share_count", "details", "success",
      "error"].Nodup
    decide
  · exact List.Sublist.refl _
  · exact build_seq (build_seq (build_seq (build_seq (build_seq (build_seq
      (build_map _ (build_required (a := e.id) rfl rfl)) (build_required rfl htime))
        (build_required rfl (EventKind.reader_reread .text e.kind)))
          (build_optional _ rfl (Decode.nullable_count_reread h.shareCount)))
            (build_optional _ rfl (nullable_details h)))
              (build_required (a := e.success) rfl rfl))
                (build_optional _ rfl (Decode.nullable_text_reread e.error))

end Entry

end QuorumVault
