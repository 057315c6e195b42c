import Mathlib.Tactic
import QuorumVault.Proofs.Audit.Entry
import QuorumVault.Proofs.Json.Line
import QuorumVault.Proofs.Vault.Trail

/-!
# Journals and their lines

A journal keeps the last entries that have been recorded, as many as it has room for, and its lines
are a text from which these entries are read back, one from each line (`Journal.lines_exact`).  What
the operations of a vault record are such entries (`Outcome.isRecordable`).
-/

namespace QuorumVault

/-! ### What a vault records -/

namespace Entry

variable {e : Entry} {stamp : Stamp}

theorem isRecordable_ofStamp (hcalendar : stamp.time.InCalendar)
    (hfraction : stamp.time.HasRegularFraction) (kind : EventKind) :
    (ofStamp stamp kind).IsRecordable where
  inCalendar := hcalendar
  fraction := hfraction
  shareCount := by
    intro n hn
    cases hn
  details := by
    intro json hjson
    cases hjson

namespace IsRecordable

theorem withShareCount (h : e.IsRecordable) {count : ℕ} (hcount : count ≤ 0xffffffffffffffff) :
    (e.withShareCount count).IsRecordable where
  inCalendar := h.inCalendar
  fraction := h.fraction
  shareCount := by
    intro n hn
    obtain rfl := Option.some.inj hn
    exact hcount
  details := h.details

theorem withDetails (h : e.IsRecordable) {members : List (String × Json)}
    (hsorted : Json.AreSorted members) (hscalar : ∀ p ∈ members, p.2.IsScalar) :
    (e.withDetails (.object members)).IsRecordable where
  inCalendar := h.inCalendar
  fraction := h.fraction
  shareCount := h.shareCount
  details := by
    intro json hjson
    obtain rfl := Option.some.inj hjson
    exact ⟨members, rfl, hsorted, hscalar⟩

theorem failed (h : e.IsRecordable) (cause : String) : (e.failed cause).IsRecordable :=
  ⟨h.inCalendar, h.fraction, h.shareCount, h.details⟩

end IsRecordable

end Entry

/-- There is room for one share for each index. -/
theorem ShareMap.size_le (m : ShareMap) : m.size ≤ 256 := by
  have hlength : indices.length = 256 := by rw [indices, List.length_map, List.length_range]
  rw [size, shares, ← hlength]
  exact List.length_filterMap_le _ _

/-- What an operation takes from its surroundings for an entry. -/
def Operation.stamp? : Operation → Option Stamp
  | .startSession stamp => some stamp
  | .sessionKey => none
  | .submit stamp _ => some stamp
  | .reconstruct stamp => some stamp
  | .sealOff stamp => some stamp
  | .serve stamp _ => some stamp
  | .request stamp => some stamp
  | .takeOver stamp _ => some stamp
  | .issueToken _ => none
  | .acceptsToken _ => none

theorem Outcome.isRecordable {ι : Type} {β : ι → Type} {v u : Vault β} {o : Operation} {a : Answer}
    {entry : Option Entry} (h : Outcome v o a entry u)
    (hstamp : ∀ stamp ∈ o.stamp?, stamp.time.InCalendar ∧ stamp.time.HasRegularFraction) :
    ∀ e ∈ entry, e.IsRecordable := by
  have hkind {stamp : Stamp} (ho : o.stamp? = some stamp) (kind : EventKind) :
      (Entry.ofStamp stamp kind).IsRecordable :=
    Entry.isRecordable_ofStamp (hstamp stamp ho).1 (hstamp stamp ho).2 kind
  have hsize (m : ShareMap) : m.size ≤ 0xffffffffffffffff := m.size_le.trans (by decide)
  intro e he
  cases h with
  | start session hphase =>
    obtain rfl := Option.some.inj he
    exact (hkind rfl _).withShareCount (Nat.zero_le _)
  | @keep stamp envelope session share hphase hopen hindex =>
    obtain rfl := Option.some.inj he
    have hlt := share.index.toNat_lt
    refine ((hkind rfl _).withShareCount (hsize _)).withDetails ?_ ?_
    · refine List.pairwise_pair.mpr ?_
      show "index" < "replaced"
      decide
    · simp only [List.forall_mem_cons, List.not_mem_nil, false_implies, implies_true, and_true]
      exact ⟨.integer (by omega) (by omega), .bool _⟩
  | reject hphase cause answer =>
    obtain rfl := Option.some.inj he
    exact ((hkind rfl _).withShareCount (hsize _)).failed cause
  | reconstruct masterKey hphase =>
    obtain rfl := Option.some.inj he
    exact (hkind rfl _).withShareCount (hsize _)
  | noCombine cause answer =>
    obtain rfl := Option.some.inj he
    exact ((hkind rfl _).withShareCount (hsize _)).failed cause
  | sealOff =>
    obtain rfl := Option.some.inj he
    exact (hkind rfl _).withShareCount (Nat.zero_le _)
  | serve hphase hserved hpack =>
    obtain rfl := Option.some.inj he
    exact hkind rfl _
  | noPack fault =>
    obtain rfl := Option.some.inj he
    exact (hkind rfl _).failed _
  | decline =>
    obtain rfl := Option.some.inj he
    refine (hkind rfl _).withDetails (List.pairwise_singleton _ _) ?_
    intro p hp
    obtain rfl := List.mem_singleton.mp hp
    exact .string _
  | refuse refusal =>
    obtain rfl := Option.some.inj he
    exact (hkind rfl _).failed _
  | request hphase hrequest =>
    obtain rfl := Option.some.inj he
    exact hkind rfl _
  | takeOver hphase hnonce hempty hopen =>
    obtain rfl := Option.some.inj he
    exact hkind rfl _
  | spend hphase hnonce hempty hopen =>
    obtain rfl := Option.some.inj he
    exact (hkind rfl _).failed _
  | _ => cases he

/-! ### Lines -/

namespace Journal

variable {j : Journal} {entries : List Entry}

theorem size_recordAll (capacity : ℕ) (entries : List Entry) :
    ((empty capacity).recordAll entries).size = min entries.length (max capacity 1) := by
  rw [size, entries_recordAll, List.length_drop]
  omega

/-- The last entries are all that there are, if that many are asked for. -/
theorem recent_of_size_le {count : ℕ} (h : j.size ≤ count) : j.recent count = j.entries := by
  have hnone : j.entries.length - count = 0 := Nat.sub_eq_zero_of_le h
  rw [recent, hnone, List.drop_zero]

theorem length_recent (count : ℕ) (j : Journal) : (j.recent count).length = min count j.size := by
  rw [recent, List.length_drop, size]
  omega

theorem toList_lines (h : j.size ≤ j.limit) :
    j.lines.toList = (j.entries.map fun e => e.toJson.chars).flatMap (· ++ ['\n']) := by
  rw [lines, recent_of_size_le h, String.toList_join]
  simp [List.flatMap_map, Json.text]

/-- A journal has a line for every entry. -/
theorem splitOn_lines_toList (h : j.size ≤ j.limit) :
    j.lines.toList.splitOn '\n' = (j.entries.map fun e => e.toJson.chars) ++ [[]] := by
  rw [toList_lines h, splitOn_lines]
  intro line hline
  obtain ⟨e, -, rfl⟩ := List.mem_map.mp hline
  exact e.toJson.isPrinted_chars.newline_notMem

end Journal

/-- **Journals.**  Of all entries that have been recorded, in whatever number, a journal holds the
last ones, as many as it has room for but one at least, in the order in which they were recorded; of
these the last ones can be asked for, and the kinds of all.  The lines of a journal are as many as
its entries, each ends in a newline, and none is left without one; each is read as the entry that it
was written for, if this is one as a vault records it.  What an operation on a vault records is such
an entry, if it happens at a time of the calendar. -/
theorem Journal.lines_exact :
    (∀ (capacity : ℕ) (entries : List Entry),
      let j := (Journal.empty capacity).recordAll entries
      j.entries <:+ entries ∧ j.size = min entries.length (max capacity 1) ∧
      (∀ count, j.recent count <:+ j.entries ∧ (j.recent count).length = min count j.size) ∧
      j.kinds = j.entries.map (·.kind) ∧
      j.lines.toList.splitOn '\n' = (j.entries.map fun e => e.toJson.chars) ++ [[]] ∧
      ((∀ e ∈ entries, e.IsRecordable) →
        (j.lines.toList.splitOn '\n').dropLast.map
          (fun line => Decode.ofText Entry.reader (String.ofList line)) = j.entries.map .ok)) ∧
    ∀ {ι : Type} {β : ι → Type} (o : Operation) (w : World β),
      (o.run w).2.vault.journal = w.vault.journal.recordAll (o.records w) ∧
      ((∀ stamp ∈ o.stamp?, stamp.time.InCalendar ∧ stamp.time.HasRegularFraction) →
        ∀ e ∈ o.records w, e.IsRecordable) := by
  constructor
  · intro capacity entries j
    have hsuffix : j.entries <:+ entries := by
      rw [entries_recordAll]
      exact List.drop_suffix _ _
    have hsize : j.size = min entries.length (max capacity 1) := size_recordAll capacity entries
    have hlimit : j.limit = max capacity 1 := by
      rw [limit, capacity_recordAll]
      rfl
    have hlines := splitOn_lines_toList (j := j) (by omega)
    refine ⟨hsuffix, hsize, ?_, rfl, hlines, ?_⟩
    · intro count
      exact ⟨List.drop_suffix _ _, length_recent count j⟩
    · intro hrecordable
      rw [hlines, List.dropLast_concat, List.map_map]
      refine List.map_congr_left fun e he => ?_
      exact (e.readsBack (hrecordable e (hsuffix.subset he))).1
  · intro ι β o w
    refine ⟨o.journal_run w, fun hstamp e he => ?_⟩
    obtain ⟨entry, u, houtcome, -, hrecords⟩ := o.exists_outcome w
    rw [hrecords, Option.mem_toList] at he
    exact houtcome.isRecordable hstamp e he

/-- A journal with room for two of three entries: one from a nanosecond after the beginning of the
year 0, and one from a leap second at the end of the year 9999 with a cause of several lines. -/
theorem Journal.lines_exact_of_three :
    let first : Entry := ⟨"first", .ofSeconds 0, .unsealStarted, some 0, none, true, none⟩
    let second : Entry := ⟨"second\n", ⟨-62167219200, 1⟩, .shareAccepted, some 0xffffffffffffffff,
      some (.object [("index", .nat 1), ("offset", .int (-0x8000000000000000)),
        ("replaced", .bool true)]), true, none⟩
    let third : Entry := ⟨"third", ⟨253402300799, 1999999999⟩, .shareRejected, none,
      some (.object []), false, some "line 1\nline 2\r\"\\\x00\u2028"⟩
    let j := (Journal.empty 2).recordAll [first, second, third]
    j.size = 2 ∧ j.entries = [second, third] ∧ (j.lines.toList.splitOn '\n').length = 3 ∧
      (j.lines.toList.splitOn '\n').dropLast.map
        (fun line => Decode.ofText Entry.reader (String.ofList line)) = [.ok second, .ok third] ∧
      ∀ e ∈ (Operation.sealOff .blank).records (.blank fun _ : Unit => Unit), e.IsRecordable := by
  intro first second third j
  obtain ⟨hlines, hoperations⟩ := Journal.lines_exact
  obtain ⟨-, hsize, -, -, hsplit, hread⟩ := hlines 2 [first, second, third]
  have hrecordable : ∀ e ∈ [first, second, third], e.IsRecordable := by
    simp only [List.forall_mem_cons, List.not_mem_nil, false_implies, implies_true, and_true]
    refine ⟨⟨by decide, by decide, by decide, ?_⟩, ⟨by decide, by decide, by decide, ?_⟩,
      ⟨by decide, by decide, by decide, ?_⟩⟩
    · intro json hjson
      cases hjson
    · intro json hjson
      obtain rfl := Option.some.inj hjson
      refine ⟨_, rfl, by decide, ?_⟩
      simp only [List.forall_mem_cons, List.not_mem_nil, false_implies, implies_true, and_true]
      exact ⟨.integer (by decide) (by decide), .integer (by decide) (by decide), .bool true⟩
    · intro json hjson
      obtain rfl := Option.some.inj hjson
      exact ⟨[], rfl, .nil, fun p hp => absurd hp List.not_mem_nil⟩
  refine ⟨hsize, rfl, ?_, hread hrecordable, ?_⟩
  · rw [hsplit]
    rfl
  · refine (hoperations (.sealOff .blank) _).2 fun stamp hstamp => ?_
    obtain rfl := Option.some.inj hstamp
    exact ⟨by decide, by decide⟩

end QuorumVault
