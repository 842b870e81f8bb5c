import PipelineResolution.AttributeType
import PipelineResolution.Proofs.Number.Whole
import PipelineResolution.Proofs.Text.Trim

/-!
# Integers in values

A value of integer type is a number that denotes a word, or a text that spells one. The number
`2 ^ 63` alone is no word and is read all the same, as the largest one.
-/
namespace PipelineResolution

namespace Text

/-- The signs of an integer, each with the factor that it stands for. -/
def signs : List (List Char × Int) := [([], 1), (['+'], 1), (['-'], -1)]

/-- The texts of an integer: digits after at most one sign. -/
inductive SpellsInteger : List Char → Int → Prop
  | intro {sign digits : List Char} {factor : Int} (known : (sign, factor) ∈ signs)
      (filled : digits ≠ []) (ascii : ∀ c ∈ digits, c.isDigit = true) :
      SpellsInteger (sign ++ digits) (factor * decimalValue digits)

/-- A text after its sign, if it has one, with the factor of the sign. -/
def splitSign : List Char → Int × List Char
  | '-' :: rest => (-1, rest)
  | '+' :: rest => (1, rest)
  | rest => (1, rest)

theorem splitSign_append {sign digits : List Char} {factor : Int} (known : (sign, factor) ∈ signs)
    (ascii : ∀ c ∈ digits, c.isDigit = true) : splitSign (sign ++ digits) = (factor, digits) := by
  simp only [signs, List.mem_cons, Prod.mk.injEq, List.not_mem_nil, or_false] at known
  rcases known with ⟨rfl, rfl⟩ | ⟨rfl, rfl⟩ | ⟨rfl, rfl⟩
  · rw [List.nil_append]
    unfold splitSign
    split
    · cases ascii _ List.mem_cons_self
    · cases ascii _ List.mem_cons_self
    · rfl
  · rfl
  · rfl

theorem exists_sign (s : List Char) :
    ∃ sign, (sign, (splitSign s).1) ∈ signs ∧ s = sign ++ (splitSign s).2 := by
  unfold splitSign
  split
  · exact ⟨['-'], by simp [signs], rfl⟩
  · exact ⟨['+'], by simp [signs], rfl⟩
  · exact ⟨[], by simp [signs], rfl⟩

theorem word?_eq (s : List Char) : word? s =
    ((digitsToNat? (splitSign s).2).map fun n : Nat => (splitSign s).1 * (n : Int)) >>= fun n =>
      if Word.isSigned n then some n else none := by
  unfold word? splitSign
  split <;> simp only [Int.neg_mul, Int.one_mul] <;> cases digitsToNat? _ <;> rfl

theorem word?_eq_some {s : List Char} {k : Int} :
    word? s = some k ↔ SpellsInteger s k ∧ (-2 ^ 63 ≤ k ∧ k ≤ 2 ^ 63 - 1) := by
  rw [word?_eq]
  constructor
  · intro h
    obtain ⟨n, read, h⟩ := Option.bind_eq_some_iff.1 h
    split at h
    · rename_i fits
      cases h
      obtain ⟨size, counted, rfl⟩ := Option.map_eq_some_iff.1 read
      obtain ⟨filled, ascii, rfl⟩ := digitsToNat?_eq_some.1 counted
      obtain ⟨sign, known, whole⟩ := exists_sign s
      have spelled := SpellsInteger.intro known filled ascii
      rw [← whole] at spelled
      exact ⟨spelled, Word.isSigned_iff.1 fits⟩
    · cases h
  · rintro ⟨@⟨sign, digits, factor, known, filled, ascii⟩, fits⟩
    rw [splitSign_append known ascii, digitsToNat?_eq_some.2 ⟨filled, ascii, rfl⟩]
    exact if_pos (Word.isSigned_iff.2 fits)

end Text

namespace Value

/-- Whether a value is a number that is equal to an integer. -/
def Denotes : Value → Int → Prop
  | .number x, k => x.Denotes k
  | _, _ => False

/-- Whether a value is a text that spells an integer between blanks. -/
def Spells : Value → Int → Prop
  | .string s, k => Text.SpellsInteger (Text.trimChars s.toList) k
  | _, _ => False

/-- Whether a value is or spells an integer of a signed 64-bit word. -/
def IsWord (v : Value) (k : Int) : Prop :=
  (v.Denotes k ∨ v.Spells k) ∧ (-2 ^ 63 ≤ k ∧ k ≤ 2 ^ 63 - 1)

end Value

namespace AttributeType
variable {v : Value} {k : Int}

/-- Numbers that are no words are refused, but for the one next to the largest word. -/
theorem read_integer_eq_ok : integer.read v = .ok k ↔
    v.IsWord k ∨ v.Denotes (2 ^ 63) ∧ k = 2 ^ 63 - 1 := by
  have found : integer.read v = .ok k ↔
      (v.word? <|> (v.text? >>= fun s => Text.word? (Text.trimChars s.toList))) = some k := by
    conv => lhs; lhs; whnf
    cases v.word? <|> (v.text? >>= fun s => Text.word? (Text.trimChars s.toList)) with
    | none => exact ⟨nofun, nofun⟩
    | some n => exact ⟨fun h => congrArg some (Except.ok.inj h),
        fun h => congrArg Except.ok (Option.some.inj h)⟩
  rw [found]
  unfold Value.IsWord
  cases v with
  | number x =>
    have word := Value.wordOf_eq_some (x := x) (k := k)
    simpa [Value.word?, Value.text?, Value.Denotes, Value.Spells] using word
  | string s =>
    have word := Text.word?_eq_some (s := Text.trimChars s.toList) (k := k)
    simpa [Value.word?, Value.text?, Value.Denotes, Value.Spells] using word
  | null | bool | list | map => simp [Value.word?, Value.text?, Value.Denotes, Value.Spells]

theorem convert_integer_eq_ok {name : String} : integer.convert name v = .ok k ↔
    v.IsWord k ∨ v.Denotes (2 ^ 63) ∧ k = 2 ^ 63 - 1 := by
  rw [← read_integer_eq_ok]
  unfold convert
  cases integer.read v with
  | ok n => exact ⟨fun h => by cases h; rfl, fun h => by cases h; rfl⟩
  | error => exact ⟨nofun, nofun⟩

end AttributeType

end PipelineResolution
