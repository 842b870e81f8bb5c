import PipelineResolution.Proofs.Resolution.Early
import PipelineResolution.Proofs.Step.Decoding
import PipelineResolution.Step.Run

/-!
# The timing of retries

A policy reaches the engine only after a check of its bounds. Under them the waits between attempts
are exact: no product of words is large enough for its saturation to show below the greatest
interval. The attempts end with the number that the policy allows.
-/
namespace PipelineResolution

/-- Below a cap that is a word itself, a product does not show that a factor or it saturates. -/
theorem Word.min_mul_min {c limit : Nat} (fits : c ≤ limit) (a b : Nat) :
    min (a * min b limit) c = min (a * b) c := by
  rcases Nat.eq_zero_or_pos a with rfl | ha
  · simp
  · rcases Nat.le_total b limit with hb | hb
    · rw [Nat.min_eq_left hb]
    · have hlimit : limit ≤ a * limit := Nat.le_mul_of_pos_left limit ha
      have hproduct : a * limit ≤ a * b := Nat.mul_le_mul_left a hb
      rw [Nat.min_eq_right hb]
      omega

theorem Word.min_saturatingMul {c : Nat} (fits : c ≤ Word.count 64 - 1) (a b : Nat) :
    min (Word.saturatingMul a b) c = min (a * b) c := by
  unfold Word.saturatingMul
  omega

namespace RetryStrategy

/-- The wait of a strategy as an integer without bound. -/
def wait (least greatest : Int) (n : Nat) : RetryStrategy → Int
  | .constant => least
  | .linear => min (least * n) greatest
  | .exponential => min (least * (n * n)) greatest

/-- How many times the least interval a strategy waits before it is capped. -/
def factor : RetryStrategy → Nat → Nat
  | .constant, _ => 1
  | .linear, n => n
  | .exponential, n => n * n

theorem wait_eq (k : RetryStrategy) {least greatest : Int} (h : least ≤ greatest) (n : Nat) :
    k.wait least greatest n = min (least * k.factor n) greatest := by
  cases k with
  | constant => simp only [wait, factor, Int.natCast_one, Int.mul_one, Int.min_eq_left h]
  | linear => rfl
  | exponential => simp only [wait, factor, Int.natCast_mul]

theorem one_le_factor (k : RetryStrategy) {n : Nat} (h : 1 ≤ n) : 1 ≤ k.factor n := by
  cases k with
  | constant => exact Nat.le_refl 1
  | linear => exact h
  | exponential => exact Nat.mul_le_mul h h

theorem factor_mono (k : RetryStrategy) {m n : Nat} (h : m ≤ n) : k.factor m ≤ k.factor n := by
  cases k with
  | constant => exact Nat.le_refl 1
  | linear => exact h
  | exponential => exact Nat.mul_le_mul h h

theorem linear_le_exponential (n : Nat) : linear.factor n ≤ exponential.factor n :=
  Nat.le_mul_self n

end RetryStrategy

namespace RetryPolicy

/-- The bounds that a policy has to keep. -/
structure Valid (p : RetryPolicy) : Prop where
  maxAttempts : p.maxAttempts ≤ maxAttemptsLimit
  minInterval : 0 ≤ p.minInterval ∧ p.minInterval ≤ minIntervalLimit
  maxInterval : 0 ≤ p.maxInterval ∧ p.maxInterval ≤ maxIntervalLimit
  lt : p.minInterval < p.maxInterval
  strategy : ∃ k, Keyword.parse RetryStrategy p.strategy = .ok k

variable {p : RetryPolicy}

theorem valid_of_hasErrors {l : Location} (h : (p.check l).hasErrors = false) : p.Valid := by
  -- Every broken bound is an error.
  have bound (c : Prop) [Decidable c] (name detail : String) :
      Diagnostics.hasErrors (if c then [] else [broken l name detail]) = false ↔ c := by
    by_cases hc : c
    · simp [hc, Diagnostics.hasErrors]
    · simp [hc, Diagnostics.hasErrors, broken, Diagnostic.about, Diagnostic.validation,
        Diagnostic.isError]
  simp only [check, Diagnostics.hasErrors_append, Bool.or_eq_false_iff, bound] at h
  obtain ⟨⟨⟨⟨maxAttempts, minInterval⟩, maxInterval⟩, lt⟩, strategy⟩ := h
  refine ⟨maxAttempts, minInterval, maxInterval, lt, ?_⟩
  split at strategy
  · rename_i k hk
    exact ⟨k, hk⟩
  · cases strategy

theorem Valid.check (valid : p.Valid) (l : Location) : p.check l = [] := by
  obtain ⟨k, hk⟩ := valid.strategy
  unfold RetryPolicy.check
  rw [if_pos valid.maxAttempts, if_pos valid.minInterval, if_pos valid.maxInterval,
    if_pos valid.lt]
  simp only [hk, List.append_nil]

theorem valid_of_check {l : Location} (h : p.check l = []) : p.Valid :=
  valid_of_hasErrors (by rw [h]; rfl)

/-! ## Ways to the engine -/

theorem valid_of_ofValues {values : Dict Value} {defaults : RetryDefaults} {l : Location}
    (h : ofValues values defaults l = .ok p) : p.Valid := by
  obtain ⟨accepted, rfl⟩ := Diagnostics.orValue_eq_ok.1 h
  rw [Diagnostics.hasErrors_append, Bool.or_eq_false_iff] at accepted
  exact valid_of_hasErrors accepted.2

theorem valid_of_ofBlock {b : Block} {ctx : ResolutionContext}
    (h : (ofBlock b ctx).outcome = .resolved p) : p.Valid := by
  unfold ofBlock at h
  dsimp only at h
  split at h
  · cases h
  · obtain ⟨values, -, hp⟩ := Resolution.resolved_of_refine h
    exact valid_of_ofValues hp

theorem valid_of_evaluate {b : Block} {env : Environment} {defaults : RetryDefaults}
    (h : evaluate b env defaults = .ok p) : p.Valid := by
  unfold evaluate at h
  dsimp only at h
  split at h
  · cases h
  · obtain ⟨values, -, hp⟩ := bind_eq_ok.1 h
    exact valid_of_ofValues hp

/-- The policy of an accepted step has been checked with the step, and one whose body waited is
checked when it is evaluated. -/
theorem valid_of_retryPolicy {b : Block} {pipeline : String} {ctx : ResolutionContext} {s : Step}
    {env : Environment} {defaults : RetryDefaults} (accepted : Step.ofBlock b pipeline ctx = .ok s)
    (h : s.retryPolicy env defaults = .ok (some p)) : p.Valid := by
  obtain ⟨word, name, kind, -, -, -, checked, rfl⟩ := Step.exists_of_ofBlock accepted
  generalize ((Step.start b kind name pipeline).takeIn b ctx).1 = s at checked h
  unfold Step.retryPolicy at h
  split at h
  · rename_i known
    cases h
    simp only [Step.check, show s.retry = some p from known, Diagnostics.hasErrors_append,
      Bool.or_eq_false_iff] at checked
    exact valid_of_hasErrors checked.2
  · cases he : evaluate ‹Block› env defaults with
    | ok q =>
      rw [he] at h
      cases h
      exact valid_of_evaluate he
    | error ds =>
      rw [he] at h
      cases h
  · cases h

/-- The ways in which the engine gets a policy: decoded with the document, evaluated from a body
that waited, or asked of an accepted step. -/
inductive Issued (p : RetryPolicy) : Prop where
  | decoded {b : Block} {ctx : ResolutionContext} : (ofBlock b ctx).outcome = .resolved p → p.Issued
  | evaluated {b : Block} {env : Environment} {defaults : RetryDefaults} :
    evaluate b env defaults = .ok p → p.Issued
  | ofStep {b : Block} {pipeline : String} {ctx : ResolutionContext} {s : Step} {env : Environment}
    {defaults : RetryDefaults} : Step.ofBlock b pipeline ctx = .ok s →
      s.retryPolicy env defaults = .ok (some p) → p.Issued

theorem Issued.valid (issued : p.Issued) : p.Valid := by
  cases issued with
  | decoded h => exact valid_of_ofBlock h
  | evaluated h => exact valid_of_evaluate h
  | ofStep accepted h => exact valid_of_retryPolicy accepted h

/-! ## Waits -/

/-- The wait is the capped product, also for the constant strategy. -/
theorem Valid.backoff_eq (valid : p.Valid) {k : RetryStrategy} (hk : p.strategy = Keyword.spell k)
    (n : Nat) :
    p.backoff n = min (p.minInterval.toNat * k.factor (max n 1)) p.maxInterval.toNat := by
  have known : Keyword.parse RetryStrategy p.strategy = .ok k := by
    rw [hk]
    cases k <;> rfl
  have lt : p.minInterval.toNat < p.maxInterval.toNat := by
    have := valid.lt
    have := valid.minInterval.1
    omega
  have fits : p.maxInterval.toNat ≤ Word.count 64 - 1 :=
    Nat.le_trans (Int.toNat_le_toNat valid.maxInterval.2) (by decide)
  unfold backoff
  simp only [known]
  cases k with
  | constant => simp only [RetryStrategy.factor, Nat.mul_one, Nat.min_eq_left (Nat.le_of_lt lt)]
  | linear => exact Word.min_saturatingMul fits _ _
  | exponential =>
    refine (Word.min_saturatingMul fits _ _).trans ?_
    rw [Word.saturatingMul, Word.min_mul_min fits, RetryStrategy.factor]

theorem Valid.backoff_eq_wait (valid : p.Valid) {k : RetryStrategy}
    (hk : p.strategy = Keyword.spell k) (n : Nat) :
    (p.backoff n : Int) = k.wait p.minInterval p.maxInterval (max n 1) := by
  have product : ((p.minInterval.toNat * k.factor (max n 1) : Nat) : Int) =
      p.minInterval * k.factor (max n 1) := by
    rw [Int.natCast_mul, Int.toNat_of_nonneg valid.minInterval.1]
  have greatest := Int.toNat_of_nonneg valid.maxInterval.1
  rw [k.wait_eq (Int.le_of_lt valid.lt), valid.backoff_eq hk, ← product]
  omega

/-- The word of a strategy that is known is its spelling. -/
theorem Valid.exists_strategy (valid : p.Valid) :
    ∃ k : RetryStrategy, p.strategy = Keyword.spell k := by
  obtain ⟨k, hk⟩ := valid.strategy
  exact ⟨k, (Keyword.spell_of_parse hk).symm⟩

theorem Valid.backoff_bounds (valid : p.Valid) (n : Nat) :
    p.minInterval.toNat ≤ p.backoff n ∧ p.backoff n ≤ p.maxInterval.toNat := by
  obtain ⟨k, hk⟩ := valid.exists_strategy
  have grown : p.minInterval.toNat ≤ p.minInterval.toNat * k.factor (max n 1) :=
    Nat.le_mul_of_pos_right _ (k.one_le_factor (Nat.le_max_right n 1))
  have le : p.minInterval.toNat ≤ p.maxInterval.toNat :=
    Int.toNat_le_toNat (Int.le_of_lt valid.lt)
  rw [valid.backoff_eq hk]
  omega

theorem Valid.backoff_mono (valid : p.Valid) {m n : Nat} (h : m ≤ n) :
    p.backoff m ≤ p.backoff n := by
  obtain ⟨k, hk⟩ := valid.exists_strategy
  have grows : k.factor (max m 1) ≤ k.factor (max n 1) := k.factor_mono (by omega)
  have product := Nat.mul_le_mul_left p.minInterval.toNat grows
  rw [valid.backoff_eq hk, valid.backoff_eq hk]
  omega

/-- Between the same bounds linear growth waits no longer than exponential growth. -/
theorem Valid.backoff_linear_le {q : RetryPolicy} (valid : p.Valid)
    (least : q.minInterval = p.minInterval) (greatest : q.maxInterval = p.maxInterval)
    (linear : p.strategy = Keyword.spell RetryStrategy.linear)
    (exponential : q.strategy = Keyword.spell RetryStrategy.exponential) (n : Nat) :
    p.backoff n ≤ q.backoff n := by
  have same : q.backoff n = { p with strategy := q.strategy }.backoff n := by
    simp only [backoff, least, greatest]
  have valid' : { p with strategy := q.strategy }.Valid :=
    { valid with strategy := ⟨.exponential, by rw [exponential]; rfl⟩ }
  have product := Nat.mul_le_mul_left p.minInterval.toNat
    (RetryStrategy.linear_le_exponential (max n 1))
  rw [same, valid.backoff_eq linear, valid'.backoff_eq exponential]
  dsimp only
  omega

/-! ## Attempts -/

/-- The attempts that are made when each runs as soon as the policy asks for it. -/
inductive Attempted (p : RetryPolicy) : Nat → Prop where
  | first : p.Attempted 1
  | next {n : Nat} : p.Attempted n → p.retriesAfter n = true → p.Attempted (n + 1)

/-- How many attempts a policy allows; the first is made whatever the policy says. -/
def attempts (p : RetryPolicy) : Nat :=
  if p.enabled = some false then 1 else max 1 p.maxAttempts.toNat

theorem retriesAfter_iff (n : Nat) (h : 1 ≤ n) : p.retriesAfter n = true ↔ n < p.attempts := by
  unfold retriesAfter attempts
  by_cases stopped : p.enabled = some false
  · simp [stopped]
    omega
  · simp [stopped]
    omega

theorem attempted_iff (n : Nat) : p.Attempted n ↔ 1 ≤ n ∧ n ≤ p.attempts := by
  constructor
  · intro made
    induction made with
    | first =>
      unfold attempts
      split <;> omega
    | next _ retries ih => exact ⟨by omega, (retriesAfter_iff _ ih.1).1 retries⟩
  · rintro ⟨hpos, hle⟩
    induction n with
    | zero => omega
    | succ n ih =>
      by_cases hn : n = 0
      · exact hn ▸ .first
      · have earlier : 1 ≤ n := by omega
        exact .next (ih earlier (by omega)) ((retriesAfter_iff n earlier).2 hle)

theorem Valid.attempts_le (valid : p.Valid) : p.attempts ≤ 300 := by
  have : p.maxAttempts ≤ 300 := valid.maxAttempts
  unfold attempts
  split <;> omega

/-- The waits of a policy are those of its strategy, between its bounds and never shorter than
before, and its attempts end with the number that it allows. -/
structure Timed (p : RetryPolicy) : Prop where
  waits : ∃ k : RetryStrategy, p.strategy = Keyword.spell k ∧
    ∀ n, (p.backoff n : Int) = k.wait p.minInterval p.maxInterval (max n 1)
  bounds : ∀ n, p.minInterval ≤ p.backoff n ∧ (p.backoff n : Int) ≤ p.maxInterval
  mono : ∀ m n, m ≤ n → p.backoff m ≤ p.backoff n
  linear_le : p.strategy = Keyword.spell RetryStrategy.linear → ∀ q : RetryPolicy,
    q.strategy = Keyword.spell RetryStrategy.exponential → q.minInterval = p.minInterval →
      q.maxInterval = p.maxInterval → ∀ n, p.backoff n ≤ q.backoff n
  attempted : ∀ n, p.Attempted n ↔ 1 ≤ n ∧ n ≤ p.attempts
  attempts_le : p.attempts ≤ 300

theorem Valid.timed (valid : p.Valid) : p.Timed where
  waits := by
    obtain ⟨k, hk⟩ := valid.exists_strategy
    exact ⟨k, hk, valid.backoff_eq_wait hk⟩
  bounds n := by
    have := valid.backoff_bounds n
    have := valid.minInterval.1
    have := valid.maxInterval.1
    omega
  mono _ _ := valid.backoff_mono
  linear_le linear _ exponential least greatest :=
    valid.backoff_linear_le least greatest linear exponential
  attempted := attempted_iff
  attempts_le := valid.attempts_le

/-- Every policy that reaches the engine keeps its bounds, and under them its timing is exact. -/
theorem checked_and_timed (p : RetryPolicy) :
    (p.Issued → ∀ l, p.check l = []) ∧ ∀ l, p.check l = [] → p.Timed :=
  ⟨fun issued => issued.valid.check, fun _ checked => (valid_of_check checked).timed⟩

/-- A block that asks for growing waits. -/
def growingBlock : Block :=
  ⟨"retry", [], [⟨"strategy", .literal (.string "exponential"), default⟩], [], default, []⟩

def growing : RetryPolicy := ⟨none, 3, "exponential", 1000, 10000⟩

theorem timed_growing :
    growing.Issued ∧ growing.Timed ∧ [1, 2, 3, 4].map growing.backoff = [1000, 4000, 9000, 10000] ∧
      growing.attempts = 3 := by
  have decoded : (ofBlock growingBlock ⟨⟨[]⟩, {}, .plain, .brief⟩).outcome = .resolved growing := rfl
  have checked := (checked_and_timed growing).1 (.decoded decoded) default
  exact ⟨.decoded decoded, (checked_and_timed growing).2 default checked, by decide, by decide⟩

end RetryPolicy
end PipelineResolution
