import PipelineResolution.Proofs.AttributeType.Integer
import PipelineResolution.Proofs.Failing
import PipelineResolution.Proofs.Step.RoundTrip
import PipelineResolution.Step.Failure
import PipelineResolution.Step.Retry

/-!
# Integers in the settings of steps

Every integer of a payload or of a policy is its default or was read from one value. So it is exact:
it is the word that a number denotes or a text spells.
-/
namespace PipelineResolution
open AttributeType

namespace Field
variable {P : Type} {fields : List (Field P)} {p p' : P} {name spelled : String} {v : Value}

/-- A value that is set was read for a field of that name. -/
theorem exists_of_set (h : set fields name spelled v p = .ok p') :
    p' = p ∨ ∃ f ∈ fields, f.name = name ∧
      ∃ data, f.type.convert spelled v = .ok data ∧ p' = f.put data p := by
  unfold set at h
  split at h
  · rename_i f found
    cases read : f.type.convert spelled v with
    | error m =>
      rw [read] at h
      cases h
    | ok data =>
      rw [read] at h
      cases h
      exact .inr ⟨f, List.mem_of_find?_eq_some found, by simpa using List.find?_some found, data,
        read, rfl⟩
  · exact .inl (Except.ok.inj h).symm

/-- What each assignment keeps, the body as a whole keeps. -/
theorem fill_preserves {I : P → Prop} {nullable : List String} {location : Location}
    {body : Dict Value} (start : I p) (step : ∀ name v p p', (name, v) ∈ body → I p →
      set fields name name v p = .ok p' → I p') : I (fill fields nullable location body p).1 := by
  unfold fill
  refine List.foldlRecOn body _ (motive := fun state : P × Diagnostics => I state.1) start
    fun state h entry he => ?_
  dsimp only
  split
  · exact h
  · split
    · rename_i p' stored
      exact step entry.1 entry.2 state.1 p' he h stored
    · exact h

/-- The integer in a field, if that is its type and it is set. -/
def integer? (f : Field P) (p : P) : Option Int :=
  match f with
  | ⟨_, .integer, get, _⟩ => get p
  | _ => none

end Field

theorem StepKind.integer?_of_set {kind : StepKind} {p q : kind.Settings} {name : String} {v : Value}
    (stored : Payload.set name v p = .ok q) (f : Field kind.Settings) (hf : f ∈ Payload.fields) :
    f.integer? q = f.integer? p ∨ ∃ k, integer.convert name v = .ok k ∧ f.integer? q = some k := by
  have found := kind.get_of_set stored f hf
  obtain ⟨_, type, get, put⟩ := f
  cases type with
  | integer => exact found
  | _ => exact .inl rfl

/-- Whether an integer is its default or was read under its name in a body. -/
def ReadOrDefault (body : Dict Value) (name : String) (default k : Int) : Prop :=
  k = default ∨ ∃ v, (name, v) ∈ body ∧ integer.convert name v = .ok k

theorem RetryPolicy.readOrDefault_of_ofValues {values : Dict Value} {defaults : RetryDefaults}
    {location : Location} {p : RetryPolicy} (h : ofValues values defaults location = .ok p) :
    ReadOrDefault values "max_attempts" defaults.maxAttempts p.maxAttempts ∧
      ReadOrDefault values "min_interval" defaults.minInterval p.minInterval ∧
      ReadOrDefault values "max_interval" defaults.maxInterval p.maxInterval := by
  obtain ⟨-, rfl⟩ := Diagnostics.orValue_eq_ok.1 h
  refine Field.fill_preserves (I := fun p : RetryPolicy =>
    ReadOrDefault values "max_attempts" defaults.maxAttempts p.maxAttempts ∧
      ReadOrDefault values "min_interval" defaults.minInterval p.minInterval ∧
      ReadOrDefault values "max_interval" defaults.maxInterval p.maxInterval)
    ⟨.inl rfl, .inl rfl, .inl rfl⟩
    fun name v p p' he ⟨attempts, least, greatest⟩ stored => ?_
  rcases Field.exists_of_set stored with rfl | ⟨f, hf, rfl, data, read, rfl⟩
  · exact ⟨attempts, least, greatest⟩
  · simp only [fields, List.mem_cons, List.not_mem_nil, or_false] at hf
    rcases hf with rfl | rfl | rfl | rfl | rfl
    · exact ⟨attempts, least, greatest⟩
    · exact ⟨.inr ⟨v, he, read⟩, least, greatest⟩
    · exact ⟨attempts, least, greatest⟩
    · exact ⟨attempts, .inr ⟨v, he, read⟩, greatest⟩
    · exact ⟨attempts, least, .inr ⟨v, he, read⟩⟩

theorem FailurePolicy.readOrDefault_of_ofValues {values : Dict Value} {location : Location}
    {p : FailurePolicy} (h : ofValues values location = .ok p) :
    ReadOrDefault values "retries" 0 p.retries := by
  obtain ⟨-, rfl⟩ := Diagnostics.orValue_eq_ok.1 h
  refine Field.fill_preserves
    (I := fun p : FailurePolicy => ReadOrDefault values "retries" 0 p.retries)
    (.inl rfl) fun name v p p' he kept stored => ?_
  rcases Field.exists_of_set stored with rfl | ⟨f, hf, rfl, data, read, rfl⟩
  · exact kept
  · simp only [fields, List.mem_cons, List.not_mem_nil, or_false] at hf
    rcases hf with rfl | rfl | rfl
    · exact kept
    · exact kept
    · exact .inr ⟨v, he, read⟩

/-- An integer attribute takes the words that are or are spelled by its value, and the number next to
the largest word as that one. Settings of every kind of step and the bounds of policies hold no
other integers than those and their defaults. -/
theorem integers_exact (name : String) (v : Value) :
    (∀ k : Int, integer.convert name v = .ok k ↔
      v.IsWord k ∨ v.Denotes (2 ^ 63) ∧ k = 2 ^ 63 - 1) ∧
    (∀ (kind : StepKind) (p q : kind.Settings), Payload.set name v p = .ok q →
      ∀ f ∈ (Payload.fields : List (Field kind.Settings)), f.integer? q = f.integer? p ∨
        ∃ k, integer.convert name v = .ok k ∧ f.integer? q = some k) ∧
    (∀ values defaults location p, RetryPolicy.ofValues values defaults location = .ok p →
      ReadOrDefault values "max_attempts" defaults.maxAttempts p.maxAttempts ∧
        ReadOrDefault values "min_interval" defaults.minInterval p.minInterval ∧
        ReadOrDefault values "max_interval" defaults.maxInterval p.maxInterval) ∧
    (∀ values location p, FailurePolicy.ofValues values location = .ok p →
      ReadOrDefault values "retries" 0 p.retries) :=
  ⟨fun _ => convert_integer_eq_ok,
    fun kind _ _ stored f hf => kind.integer?_of_set stored f hf,
    fun _ _ _ _ accepted => RetryPolicy.readOrDefault_of_ofValues accepted,
    fun _ _ _ accepted => FailurePolicy.readOrDefault_of_ofValues accepted⟩

/-- The port of a mail server, spelled with a sign and a blank. -/
theorem integers_exact_port : integer.convert "port" (.string " +587") = .ok (587 : Int) := by
  have spelled : Text.SpellsInteger ['+', '5', '8', '7'] 587 :=
    @Text.SpellsInteger.intro ['+'] ['5', '8', '7'] 1 (by decide) (by decide)
      (List.all_eq_true.1 rfl)
  exact ((integers_exact "port" (.string " +587")).1 587).2 (.inl ⟨.inr spelled, by omega⟩)

/-- The number `2 ^ 63` is no word and is read as one. -/
theorem not_integers_exact_top :
    ¬∀ name v (k : Int), integer.convert name v = .ok k ↔ v.IsWord k := by
  intro h
  obtain ⟨x, top⟩ : ∃ x : Number, x.Denotes (2 ^ 63) :=
    ⟨.ofInt (2 ^ 63), Number.toInt?_eq_some.1 (by decide +kernel)⟩
  have read : integer.convert "port" (.number x) = .ok (2 ^ 63 - 1 : Int) :=
    convert_integer_eq_ok.2 (.inr ⟨top, rfl⟩)
  rcases (h _ _ _).1 read with ⟨denoted | spelled, -⟩
  · have same : (2 ^ 63 : Int) = 2 ^ 63 - 1 := top.unique denoted
    omega
  · exact spelled

end PipelineResolution
