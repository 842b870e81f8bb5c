import Mathlib.Data.List.Basic
import PipelineResolution.Duration
import PipelineResolution.Proofs.Text.Trim

/-!
# The texts of durations

A text names a duration when it is a count that fits into a word and at most one unit after it, with
blanks anywhere but inside the two. Any other text is refused, and the milliseconds of a long
duration stop at the largest word.
-/
namespace PipelineResolution.Duration
open Text

/-- The units in milliseconds; a count without a unit is one of milliseconds. -/
def units : List (String × Nat) := [("", 1), ("ms", 1), ("s", 1000), ("m", 60000), ("h", 3600000)]

/-- The texts of a count of units of some size. -/
inductive Spells : List Char → Nat → Nat → Prop
  | intro {front digits gap unit back : List Char} {size : Nat} (hf : Blank front) (hg : Blank gap)
      (hb : Blank back) (filled : digits ≠ []) (ascii : ∀ c ∈ digits, c.isDigit = true)
      (known : (String.ofList unit, size) ∈ units) :
      Spells (front ++ digits ++ gap ++ unit ++ back) (decimalValue digits) size

theorem unitSize?_eq_some {unit : String} {size : Nat} :
    unitSize? unit = some size ↔ (unit, size) ∈ units := by
  unfold unitSize?
  split <;> simp_all [units, @eq_comm _ _ size]

theorem letter_of_mem_units {unit : List Char} {size : Nat}
    (known : (String.ofList unit, size) ∈ units) : ∀ c ∈ unit, c ∈ ['m', 's', 'h'] := by
  simp only [units, List.mem_cons, Prod.mk.injEq, List.not_mem_nil, or_false,
    ← String.toList_inj, String.toList_ofList] at known
  rcases known with ⟨rfl, -⟩ | ⟨rfl, -⟩ | ⟨rfl, -⟩ | ⟨rfl, -⟩ | ⟨rfl, -⟩ <;> simp

theorem plain_of_letter {c : Char} (h : c ∈ ['m', 's', 'h']) :
    isBlank c = false ∧ c.isDigit = false := by
  simp only [List.mem_cons, List.not_mem_nil, or_false] at h
  rcases h with rfl | rfl | rfl <;> decide

variable {s : List Char} {amount size : Nat}

/-- A text spells a count when its digits and what follows them are read as count and unit. -/
theorem spells_iff : Spells s amount size ↔
    digitsToNat? ((trimChars s).takeWhile Char.isDigit) = some amount ∧
      unitSize? (String.ofList (trimChars ((trimChars s).dropWhile Char.isDigit))) = some size := by
  constructor
  · rintro @⟨front, digits, gap, unit, back, _, hf, hg, hb, filled, ascii, known⟩
    have plain {c : Char} (hc : c ∈ unit) := plain_of_letter (letter_of_mem_units known c hc)
    -- Without a unit the blanks behind the digits belong to the end.
    obtain ⟨inner, outer, hi, ho, split, ends⟩ : ∃ inner outer, Blank inner ∧ Blank outer ∧
        gap ++ unit ++ back = inner ++ unit ++ outer ∧ (unit = [] → inner = []) := by
      by_cases none : unit = []
      · exact ⟨[], gap ++ back, fun _ h => (nomatch h), hg.append hb, by simp [none], fun _ => rfl⟩
      · exact ⟨gap, back, hg, hb, rfl, fun h => absurd h none⟩
    have first : ∀ c ∈ (digits ++ (inner ++ unit)).head?, isBlank c = false := by
      intro c hc
      rw [List.head?_append_of_ne_nil _ filled] at hc
      exact isBlank_eq_false_of_isDigit (ascii c (List.mem_of_head? hc))
    have last : ∀ c ∈ (digits ++ (inner ++ unit)).getLast?, isBlank c = false := by
      intro c hc
      by_cases none : unit = []
      · rw [ends none, none, List.append_nil, List.append_nil] at hc
        exact isBlank_eq_false_of_isDigit (ascii c (List.mem_of_getLast? hc))
      · rw [← List.append_assoc, List.getLast?_append_of_ne_nil _ none] at hc
        exact (plain (List.mem_of_getLast? hc)).1
    have trimmed :
        trimChars (front ++ digits ++ gap ++ unit ++ back) = digits ++ (inner ++ unit) := by
      rw [← trimChars_between hf ho first last]
      simp only [List.append_assoc] at split ⊢
      rw [split]
    have other : ∀ c ∈ (inner ++ unit).head?, c.isDigit = false := by
      intro c hc
      rcases List.mem_append.1 (List.mem_of_head? hc) with hc | hc
      · exact Bool.eq_false_iff.2 fun digit =>
          absurd (hi c hc) (by rw [isBlank_eq_false_of_isDigit digit]; decide)
      · exact (plain hc).2
    have named : trimChars (inner ++ unit) = unit := by
      have alone : trimChars (inner ++ unit ++ []) = unit := trimChars_between hi (fun _ h => nomatch h)
        (fun c hc => (plain (List.mem_of_head? hc)).1)
        (fun c hc => (plain (List.mem_of_getLast? hc)).1)
      rwa [List.append_nil] at alone
    obtain ⟨taken, dropped⟩ := span_isDigit ascii other
    rw [trimmed, taken, dropped, named]
    exact ⟨digitsToNat?_eq_some.2 ⟨filled, ascii, rfl⟩, unitSize?_eq_some.2 known⟩
  · rintro ⟨counted, measured⟩
    obtain ⟨filled, ascii, rfl⟩ := digitsToNat?_eq_some.1 counted
    obtain ⟨front, back, hf, hb, whole⟩ := exists_trimChars s
    obtain ⟨gap, rest, hg, hr, tail⟩ := exists_trimChars ((trimChars s).dropWhile Char.isDigit)
    have spelled := Spells.intro hf hg (hr.append hb) filled ascii (unitSize?_eq_some.1 measured)
    have same : front ++ (trimChars s).takeWhile Char.isDigit ++ gap ++
        trimChars ((trimChars s).dropWhile Char.isDigit) ++ (rest ++ back) = s := by
      calc
        _ = front ++ ((trimChars s).takeWhile Char.isDigit ++
            (gap ++ trimChars ((trimChars s).dropWhile Char.isDigit) ++ rest)) ++ back := by
          simp only [List.append_assoc]
        _ = s := by rw [← tail, List.takeWhile_append_dropWhile, ← whole]
    rwa [same] at spelled

theorem Spells.characters (h : Spells s amount size) :
    ∀ c ∈ s, isBlank c = true ∨ c.isDigit = true ∨ c ∈ ['m', 's', 'h'] := by
  obtain ⟨hf, hg, hb, -, ascii, known⟩ := h
  intro c hc
  simp only [List.mem_append] at hc
  rcases hc with (((hc | hc) | hc) | hc) | hc
  · exact .inl (hf c hc)
  · exact .inr (.inl (ascii c hc))
  · exact .inl (hg c hc)
  · exact .inr (.inr (letter_of_mem_units known c hc))
  · exact .inl (hb c hc)

theorem ofText_eq_ok {text : String} {n : Nat} : ofText text = .ok n ↔
    ∃ amount size, Spells text.toList amount size ∧ amount ≤ limit ∧
      n = min (amount * size) limit := by
  simp only [spells_iff]
  unfold ofText
  dsimp only
  cases digitsToNat? _ with
  | none => simp
  | some amount =>
    by_cases long : limit < amount
    · simp [long]
    · cases unitSize? _ with
      | none => simp [long]
      | some size => simp [long, Nat.not_lt.1 long, eq_comm]

/-- A text is read as a duration when it spells a count that fits into a word, and then as that
count of its unit, but no longer than the longest duration. All other texts are refused, among them
those with any character but blanks, ASCII digits and the letters of the units. -/
theorem ofValue_string (text : String) :
    (∀ n, ofValue (.string text) = .ok n ↔ ∃ amount size, Spells text.toList amount size ∧
      amount ≤ 2 ^ 64 - 1 ∧ n = min (amount * size) (2 ^ 64 - 1)) ∧
    ((∃ e, ofValue (.string text) = .error e) ↔
      ¬∃ amount size, Spells text.toList amount size ∧ amount ≤ 2 ^ 64 - 1) ∧
    ((∃ c ∈ text.toList, isBlank c = false ∧ c.isDigit = false ∧ c ∉ ['m', 's', 'h']) →
      ∃ e, ofValue (.string text) = .error e) := by
  have read (n : Nat) : ofValue (.string text) = .ok n ↔ ∃ amount size,
      Spells text.toList amount size ∧ amount ≤ 2 ^ 64 - 1 ∧ n = min (amount * size) (2 ^ 64 - 1) :=
    ofText_eq_ok
  have refused : (∃ e, ofValue (.string text) = .error e) ↔
      ¬∃ amount size, Spells text.toList amount size ∧ amount ≤ 2 ^ 64 - 1 := by
    cases outcome : ofValue (.string text) with
    | ok n =>
      obtain ⟨amount, size, spelled, fits, -⟩ := (read n).1 outcome
      exact ⟨fun ⟨_, h⟩ => (nomatch h), fun h => absurd ⟨amount, size, spelled, fits⟩ h⟩
    | error e =>
      refine ⟨fun _ ⟨amount, size, spelled, fits⟩ => ?_, fun _ => ⟨e, rfl⟩⟩
      cases outcome.symm.trans ((read _).2 ⟨amount, size, spelled, fits, rfl⟩)
  refine ⟨read, refused, fun ⟨c, hc, blank, digit, letter⟩ => refused.2 ?_⟩
  rintro ⟨amount, size, spelled, -⟩
  rcases spelled.characters c hc with h | h | h
  · exact absurd h (by rw [blank]; decide)
  · exact absurd h (by rw [digit]; decide)
  · exact letter h

end PipelineResolution.Duration
