import Mathlib.Data.List.TakeWhile
import Mathlib.Data.Nat.Digits.Defs
import PipelineResolution.Text.Cut

/-!
# Trimmed texts and decimal digits

Trimming takes away blanks at both ends and nothing else, so a text is its trimmed form between
blanks. A run of digits is read as the number that it denotes in base ten.
-/
namespace PipelineResolution.Text

/-- A text of blanks only. -/
def Blank (s : List Char) : Prop := ∀ c ∈ s, isBlank c = true

/-- The number that decimal digits denote, the last digit being the least. -/
def decimalValue (digits : List Char) : Nat :=
  Nat.ofDigits 10 (digits.reverse.map fun c => c.toNat - '0'.toNat)

variable {front text back : List Char}

theorem Blank.append (hf : Blank front) (hb : Blank back) : Blank (front ++ back) :=
  List.forall_mem_append.2 ⟨hf, hb⟩

theorem Blank.reverse (h : Blank back) : Blank back.reverse := fun c hc =>
  h c (List.mem_reverse.1 hc)

theorem dropWhile_blank (hf : Blank front) (first : ∀ c ∈ text.head?, isBlank c = false) :
    (front ++ text).dropWhile isBlank = text := by
  induction front with
  | nil =>
    cases text with
    | nil => rfl
    | cons c text => exact List.dropWhile_cons_of_neg (by simp [first c rfl])
  | cons c front ih =>
    obtain ⟨hc, hf⟩ := List.forall_mem_cons.1 hf
    rw [List.cons_append, List.dropWhile_cons_of_pos hc, ih hf]

theorem dropBlankEnd_blank (hb : Blank back) (last : ∀ c ∈ text.getLast?, isBlank c = false) :
    dropBlankEnd (text ++ back) = text := by
  rw [dropBlankEnd, List.reverse_append, dropWhile_blank hb.reverse (by simpa using last),
    List.reverse_reverse]

/-- Trimming takes away the blanks around a text that has none at its ends. -/
theorem trimChars_between (hf : Blank front) (hb : Blank back)
    (first : ∀ c ∈ text.head?, isBlank c = false) (last : ∀ c ∈ text.getLast?, isBlank c = false) :
    trimChars (front ++ text ++ back) = text := by
  cases text with
  | nil =>
    have all : (front ++ back ++ []).dropWhile isBlank = [] :=
      dropWhile_blank (hf.append hb) fun _ h => nomatch h
    rw [List.append_nil] at all ⊢
    rw [trimChars, all]
    rfl
  | cons c text =>
    have start : (front ++ (c :: text ++ back)).dropWhile isBlank = c :: text ++ back :=
      dropWhile_blank hf fun d hd => first d hd
    rw [trimChars, List.append_assoc, start, dropBlankEnd_blank hb last]

/-- A text is its trimmed form between blanks. -/
theorem exists_trimChars (s : List Char) :
    ∃ front back, Blank front ∧ Blank back ∧ s = front ++ trimChars s ++ back := by
  refine ⟨s.takeWhile isBlank, ((s.dropWhile isBlank).reverse.takeWhile isBlank).reverse,
    fun c hc => List.mem_takeWhile_imp hc, Blank.reverse fun c hc => List.mem_takeWhile_imp hc, ?_⟩
  rw [trimChars, dropBlankEnd, List.append_assoc, ← List.reverse_append,
    List.takeWhile_append_dropWhile, List.reverse_reverse, List.takeWhile_append_dropWhile]

theorem isBlank_eq_false_of_isDigit {c : Char} (h : c.isDigit = true) : isBlank c = false := by
  simp only [Char.isDigit, Bool.and_eq_true, decide_eq_true_eq] at h
  have least : 48 ≤ c.toNat := h.1
  have most : c.toNat ≤ 57 := h.2
  simp only [isBlank, Bool.or_eq_false_iff, Bool.and_eq_false_iff, decide_eq_false_iff_not,
    beq_eq_false_iff_ne]
  omega

/-- Digits in front of a text that starts otherwise are told from it. -/
theorem span_isDigit {digits rest : List Char} (ascii : ∀ c ∈ digits, c.isDigit = true)
    (other : ∀ c ∈ rest.head?, c.isDigit = false) :
    (digits ++ rest).takeWhile Char.isDigit = digits ∧
      (digits ++ rest).dropWhile Char.isDigit = rest := by
  have stop : rest.takeWhile Char.isDigit = [] ∧ rest.dropWhile Char.isDigit = rest := by
    cases rest with
    | nil => exact ⟨rfl, rfl⟩
    | cons c rest => simp [other c rfl]
  rw [List.takeWhile_append_of_pos ascii, List.dropWhile_append_of_pos ascii, stop.1, stop.2,
    List.append_nil]
  exact ⟨rfl, rfl⟩

theorem digitsToNat?_eq_some {digits : List Char} {n : Nat} :
    digitsToNat? digits = some n ↔
      digits ≠ [] ∧ (∀ c ∈ digits, c.isDigit = true) ∧ n = decimalValue digits := by
  have value :
      digits.foldl (fun n c => n * 10 + (c.toNat - '0'.toNat)) 0 = decimalValue digits := by
    rw [decimalValue, Nat.ofDigits_eq_foldr, List.foldr_map, List.foldr_reverse]
    simp only [Nat.cast_id, Nat.mul_comm, Nat.add_comm]
  unfold digitsToNat?
  rw [value]
  split
  · rename_i unread
    simp only [Bool.or_eq_true, List.isEmpty_iff, Bool.not_eq_true', List.all_eq_false] at unread
    refine ⟨(nomatch ·), fun ⟨filled, ascii, _⟩ => ?_⟩
    rcases unread with empty | ⟨c, hc, other⟩
    · exact absurd empty filled
    · exact absurd (ascii c hc) other
  · rename_i all
    simp only [Bool.not_eq_true, Bool.or_eq_false_iff, List.isEmpty_eq_false_iff,
      Bool.not_eq_false', List.all_eq_true] at all
    rw [Option.some_inj]
    exact ⟨fun h => ⟨all.1, all.2, h.symm⟩, fun h => h.2.2.symm⟩

end PipelineResolution.Text
