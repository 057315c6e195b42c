import Mathlib.Tactic
import QuorumVault.Json.Printer
import QuorumVault.Proofs.Json.Text

/-!
# Values as lines

No control character stands in the text of a value, whatever texts the value is made of
(`Json.isPrinted_chars`).  A text with a line for each of some values is therefore cut at its
newlines into the texts of these values (`splitOn_lines`).
-/

namespace QuorumVault

/-- There are no control characters below the space. -/
def IsPrinted (chars : List Char) : Prop := ∀ c ∈ chars, 0x20 ≤ c.toNat

instance (chars : List Char) : Decidable (IsPrinted chars) := List.decidableBAll _ chars

namespace IsPrinted

variable {c : Char} {chars chars' : List Char} {n : ℕ}

theorem nil : IsPrinted [] := fun _ h => absurd h List.not_mem_nil

theorem cons (hc : 0x20 ≤ c.toNat) (h : IsPrinted chars) : IsPrinted (c :: chars) :=
  List.forall_mem_cons.mpr ⟨hc, h⟩

theorem append (h : IsPrinted chars) (h' : IsPrinted chars') : IsPrinted (chars ++ chars') :=
  List.forall_mem_append.mpr ⟨h, h'⟩

theorem of_subset (h : IsPrinted chars) (hsubset : chars' ⊆ chars) : IsPrinted chars' :=
  fun c hc => h c (hsubset hc)

theorem toDigits (n : ℕ) : IsPrinted (Nat.toDigits 10 n) := by
  intro c hc
  have hdigit := (Char.isDigit_iff_toNat.mp (Digit.isDigit_of_mem_toDigits hc)).1
  exact le_trans (by decide) hdigit

theorem replicate (hc : 0x20 ≤ c.toNat) (n : ℕ) : IsPrinted (List.replicate n c) := by
  intro d hd
  rw [(List.mem_replicate.mp hd).2]
  exact hc

theorem newline_notMem (h : IsPrinted chars) : '\n' ∉ chars := fun hc => absurd (h _ hc) (by decide)

end IsPrinted

/-! ### Numbers -/

namespace Binary64

theorem isPrinted_exponentText (exponent : ℤ) : IsPrinted (exponentText exponent) := by
  refine .cons (by decide) (.cons ?_ (.toDigits _))
  split_ifs <;> decide

theorem isPrinted_layout {digits : List Char} (h : IsPrinted digits) (power : ℤ) :
    IsPrinted (layout digits power) := by
  have htake (n : ℕ) : IsPrinted (digits.take n) := h.of_subset (List.take_subset n digits)
  have hdrop (n : ℕ) : IsPrinted (digits.drop n) := h.of_subset (List.drop_subset n digits)
  have hzeros (n : ℕ) : IsPrinted (List.replicate n '0') := .replicate (by decide) n
  unfold layout
  dsimp only
  split_ifs
  · exact (h.append (hzeros _)).append (by decide)
  · exact (htake _).append (.cons (by decide) (hdrop _))
  · exact .append (.cons (by decide) (.cons (by decide) (hzeros _))) h
  · split
    · exact .cons (h _ List.mem_cons_self) (isPrinted_exponentText _)
    · exact ((htake 1).append (.cons (by decide) (hdrop 1))).append (isPrinted_exponentText _)

theorem isPrinted_text (x : Binary64) : IsPrinted x.text := by
  have hsign : IsPrinted (if x.negative then ['-'] else []) := by
    split_ifs <;> decide
  unfold text
  by_cases hzero : x.mantissa = 0
  · rw [if_pos hzero]
    exact hsign.append (by decide)
  · rw [if_neg hzero]
    exact hsign.append (isPrinted_layout (.toDigits _) _)

end Binary64

namespace Json

theorem Number.isPrinted_chars (n : Number) : IsPrinted n.chars := by
  cases n with
  | integer i =>
    show IsPrinted (integerChars i)
    unfold integerChars
    split_ifs
    · exact .cons (by decide) (.toDigits _)
    · exact .toDigits _
  | decimal x => exact x.isPrinted_text

/-! ### Texts -/

/-- Whatever is not printed is escaped. -/
theorem isPrinted_escape (c : Char) : IsPrinted (escape c) := by
  have hhex : ∀ n < 16, 0x20 ≤ (Digit.hex n).toNat := by decide
  rcases Draft.escape_cases c with ⟨h, -, -, hc⟩ | ⟨letter, h, hletter, -⟩ | ⟨h, hc⟩
  · rw [h]
    exact .cons hc .nil
  · rw [h]
    refine .cons (by decide) (.cons ?_ .nil)
    unfold Draft.plainEscape? at hletter
    split at hletter
    all_goals
      first
      | decide
      | cases hletter
  · rw [h]
    exact .cons (by decide) (.cons (by decide) (.cons (by decide) (.cons (by decide)
      (.cons (hhex _ (by omega)) (.cons (hhex _ (by omega)) .nil)))))

theorem isPrinted_quote (text : String) : IsPrinted (quote text) := by
  refine .append (.cons (by decide) ?_) (by decide)
  intro c hc
  obtain ⟨d, -, hd⟩ := List.mem_flatMap.mp hc
  exact isPrinted_escape d c hd

/-! ### Values -/

mutual

/-- No control character stands in the text of a value. -/
theorem isPrinted_chars : ∀ json : Json, IsPrinted json.chars
  | .null => by rw [chars]; decide
  | .bool true => by rw [chars]; decide
  | .bool false => by rw [chars]; decide
  | .number n => n.isPrinted_chars
  | .string text => isPrinted_quote text
  | .array items => .append (.cons (by decide) (isPrinted_itemsChars items)) (by decide)
  | .object members =>
    .append (.cons (by decide) (isPrinted_membersChars members)) (by decide)

theorem isPrinted_itemsChars : ∀ items : List Json, IsPrinted (itemsChars items)
  | [] => .nil
  | [item] => isPrinted_chars item
  | item :: next :: rest =>
    (isPrinted_chars item).append (.cons (by decide) (isPrinted_itemsChars (next :: rest)))

theorem isPrinted_membersChars :
    ∀ members : List (String × Json), IsPrinted (membersChars members)
  | [] => .nil
  | [(name, value)] => (isPrinted_quote name).append (.cons (by decide) (isPrinted_chars value))
  | (name, value) :: next :: rest =>
    ((isPrinted_quote name).append (.cons (by decide) (isPrinted_chars value))).append
      (.cons (by decide) (isPrinted_membersChars (next :: rest)))

end

end Json

/-! ### Lines -/

/-- Lines that each end in a newline are what a text is cut into at its newlines; nothing is left
behind the last one. -/
theorem splitOn_lines {lines : List (List Char)} (h : ∀ line ∈ lines, '\n' ∉ line) :
    (lines.flatMap (· ++ ['\n'])).splitOn '\n' = lines ++ [[]] := by
  induction lines with
  | nil => rfl
  | cons line lines ih =>
    obtain ⟨hline, hlines⟩ := List.forall_mem_cons.mp h
    have hcut : (line ++ '\n' :: lines.flatMap (· ++ ['\n'])).splitOn '\n' =
        line.splitOn '\n' ++ (lines.flatMap (· ++ ['\n'])).splitOn '\n' := by
      simp only [List.splitOn_eq_splitOnP]
      exact List.splitOnP_append_cons line _ (beq_self_eq_true '\n')
    have hwhole : line.splitOn '\n' = [line] := by
      rw [List.splitOn_eq_splitOnP]
      refine List.splitOnP_eq_singleton fun c hc => beq_eq_false_iff_ne.mpr ?_
      rintro rfl
      exact hline hc
    rw [List.flatMap_cons, List.append_assoc, List.singleton_append, hcut, hwhole, ih hlines]
    rfl

end QuorumVault
