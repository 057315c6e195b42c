import Mathlib.Data.List.TakeWhile
import Mathlib.Tactic
import QuorumVault.Text.Blank

/-!
# White space around a text

`Text.trim` takes the white space on either side away and nothing else: what is left is the one core
that the text has (`isCore_iff`), and further white space around the text does not change it
(`trim_of_pads`).
-/

namespace QuorumVault.Text

variable {chars core before after : List Char} {text : String}

/-- White space and nothing else. -/
def AllBlank (chars : List Char) : Prop := ∀ c ∈ chars, isBlank c = true

instance (chars : List Char) : Decidable (AllBlank chars) :=
  List.decidableBAll (fun c => isBlank c = true) chars

/-- The text is these characters with white space around them, of which there may be none. -/
def Pads (core : List Char) (text : String) : Prop :=
  ∃ before after, AllBlank before ∧ AllBlank after ∧ text.toList = before ++ core ++ after

/-- No white space on either side. -/
def IsBare (chars : List Char) : Prop :=
  (∀ c ∈ chars.head?, isBlank c = false) ∧ ∀ c ∈ chars.getLast?, isBlank c = false

/-- What a text is without the white space around it. -/
def IsCore (core : List Char) (text : String) : Prop := Pads core text ∧ IsBare core

theorem pads_toList (text : String) : Pads text.toList text :=
  ⟨[], [], nofun, nofun, (List.append_nil _).symm⟩

/-! ### One side -/

theorem dropBlank_of_allBlank (h : AllBlank before) (rest : List Char) :
    dropBlank (before ++ rest) = dropBlank rest :=
  List.dropWhile_append_of_pos h

theorem dropBlank_of_head? (h : ∀ c ∈ chars.head?, isBlank c = false) :
    dropBlank chars = chars := by
  cases chars with
  | nil => rfl
  | cons c rest => exact List.dropWhile_cons_of_neg (by simp [h c rfl])

theorem isBlank_head?_dropBlank (chars : List Char) :
    ∀ c ∈ (dropBlank chars).head?, isBlank c = false := by
  induction chars with
  | nil => nofun
  | cons d rest ih =>
    rw [dropBlank, List.dropWhile_cons]
    split_ifs with hd
    · exact ih
    · intro c hc
      obtain rfl : d = c := Option.some.inj hc
      exact Bool.not_eq_true _ ▸ hd

theorem exists_append_dropBlank (chars : List Char) :
    ∃ before, AllBlank before ∧ chars = before ++ dropBlank chars :=
  ⟨chars.takeWhile isBlank, fun _ hc => List.mem_takeWhile_imp hc,
    List.takeWhile_append_dropWhile.symm⟩

theorem AllBlank.reverse (h : AllBlank chars) : AllBlank chars.reverse :=
  fun c hc => h c (List.mem_reverse.mp hc)

/-! ### Both sides -/

theorem trim_of_isBare (h : IsBare chars) : trim chars = chars := by
  rw [trim, dropBlank_of_head? h.1, dropBlank_of_head?, List.reverse_reverse]
  rw [List.head?_reverse]
  exact h.2

theorem isBare_trim (chars : List Char) : IsBare (trim chars) := by
  constructor
  · -- what is taken away at the end does not reach the first character
    intro c hc
    obtain ⟨after, -, hafter⟩ := exists_append_dropBlank (dropBlank chars).reverse
    have hsplit : dropBlank chars = trim chars ++ after.reverse := by
      rw [trim, ← List.reverse_append, ← hafter, List.reverse_reverse]
    apply isBlank_head?_dropBlank chars c
    rw [hsplit, Option.mem_def, List.head?_append, Option.mem_def.mp hc]
    rfl
  · intro c hc
    rw [trim, List.getLast?_reverse] at hc
    exact isBlank_head?_dropBlank _ c hc

theorem pads_trim (text : String) : Pads (trim text.toList) text := by
  obtain ⟨before, hbefore, hfront⟩ := exists_append_dropBlank text.toList
  obtain ⟨after, hafter, hback⟩ := exists_append_dropBlank (dropBlank text.toList).reverse
  refine ⟨before, after.reverse, hbefore, hafter.reverse, ?_⟩
  rw [List.append_assoc, trim, ← List.reverse_append, ← hback, List.reverse_reverse]
  exact hfront

theorem trim_append_of_allBlank (h : AllBlank after) (chars : List Char) :
    trim (chars ++ after) = trim chars := by
  have hafter : dropBlank after = [] := by
    rw [← List.append_nil after, dropBlank_of_allBlank h]
    rfl
  by_cases hempty : dropBlank chars = []
  · have hdrop : dropBlank (chars ++ after) = [] := by
      rw [← hafter]
      exact List.dropWhile_append.trans (if_pos (List.isEmpty_iff.mpr hempty))
    rw [trim, hdrop, trim, hempty]
  · have hdrop : dropBlank (chars ++ after) = dropBlank chars ++ after :=
      List.dropWhile_append.trans (if_neg (mt List.isEmpty_iff.mp hempty))
    rw [trim, hdrop, List.reverse_append, dropBlank_of_allBlank h.reverse]
    rfl

/-- White space around a text does not change what is left without it. -/
theorem trim_of_pads (h : Pads core text) : trim text.toList = trim core := by
  obtain ⟨before, after, hbefore, hafter, htext⟩ := h
  rw [htext, trim_append_of_allBlank hafter, trim, dropBlank_of_allBlank hbefore]
  rfl

/-- Without the white space around it, a text is one thing only. -/
theorem isCore_iff : IsCore core text ↔ core = trim text.toList := by
  constructor
  · rintro ⟨hpads, hbare⟩
    rw [trim_of_pads hpads, trim_of_isBare hbare]
  · rintro rfl
    exact ⟨pads_trim text, isBare_trim _⟩

end QuorumVault.Text
