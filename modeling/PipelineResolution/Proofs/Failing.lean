import PipelineResolution.Diagnostic.Basic

/-!
# Computations that may fail

What the success of a sequence says about its parts. A list is gone through until the first failure,
which is then that of the whole, or else all reports are gathered, and what every step without an
error keeps is kept by all of them.
-/
namespace PipelineResolution
variable {ε α β : Type}

theorem bind_eq_ok {x : Except ε α} {f : α → Except ε β} {b : β} :
    x >>= f = .ok b ↔ ∃ a, x = .ok a ∧ f a = .ok b := by
  cases x with
  | error e => exact ⟨(by cases ·), fun ⟨_, h, _⟩ => (by cases h)⟩
  | ok a => exact ⟨fun h => ⟨a, rfl, h⟩, fun ⟨_, h, hf⟩ => by cases h; exact hf⟩

theorem bind_eq_error {x : Except ε α} {f : α → Except ε β} {e : ε} :
    x >>= f = .error e ↔ x = .error e ∨ ∃ a, x = .ok a ∧ f a = .error e := by
  cases x with
  | error e' =>
    refine ⟨fun h => .inl (by cases h; rfl), ?_⟩
    rintro (h | ⟨_, h, -⟩) <;> cases h
    rfl
  | ok a =>
    refine ⟨fun h => .inr ⟨a, rfl, h⟩, ?_⟩
    rintro (h | ⟨_, h, hf⟩) <;> cases h
    exact hf

/-- What a computation gives can be tested by running it. -/
instance decidableExistsOk {P : α → Prop} [DecidablePred P] (x : Except ε α) :
    Decidable (∃ a, x = .ok a ∧ P a) :=
  match x with
  | .ok a => decidable_of_iff (P a)
    ⟨fun h => ⟨a, rfl, h⟩, fun ⟨_, ha, h⟩ => by cases ha; exact h⟩
  | .error _ => .isFalse fun ⟨_, ha, _⟩ => nomatch ha

instance decidableExistsError {P : ε → Prop} [DecidablePred P] (x : Except ε α) :
    Decidable (∃ e, x = .error e ∧ P e) :=
  match x with
  | .ok _ => .isFalse fun ⟨_, he, _⟩ => nomatch he
  | .error e => decidable_of_iff (P e)
    ⟨fun h => ⟨e, rfl, h⟩, fun ⟨_, he, h⟩ => by cases he; exact h⟩

/-- Going through a list fails at the first element that does. -/
theorem mapM_eq {f : α → Except ε β} {failure? : α → Option ε} {value : α → β}
    (h : ∀ a, f a = (failure? a).elim (.ok (value a)) .error) (as : List α) :
    as.mapM f = (as.findSome? failure?).elim (.ok (as.map value)) .error := by
  induction as with
  | nil => rfl
  | cons a as ih =>
    rw [List.mapM_cons, h, ih, List.findSome?_cons]
    cases failure? a with
    | some e => rfl
    | none => cases as.findSome? failure? <;> rfl

/-- A list that is gone through fails with the failure of the first element that has one. -/
theorem mapM_eq_error {f : α → Except ε β} {as : List α} {e : ε} :
    as.mapM f = .error e ↔ ∃ before a after, as = before ++ a :: after ∧
      (∀ b ∈ before, ∃ c, f b = .ok c) ∧ f a = .error e := by
  induction as with
  | nil => exact ⟨(nomatch ·), fun ⟨before, a, after, h, _⟩ => absurd h (by simp)⟩
  | cons a as ih =>
    rw [List.mapM_cons, bind_eq_error]
    constructor
    · rintro (h | ⟨c, hc, h⟩)
      · exact ⟨[], a, as, rfl, fun _ hb => (nomatch hb), h⟩
      · rcases bind_eq_error.1 h with h | ⟨_, -, h⟩
        · obtain ⟨before, a', after, rfl, fine, h⟩ := ih.1 h
          exact ⟨a :: before, a', after, rfl, List.forall_mem_cons.2 ⟨⟨c, hc⟩, fine⟩, h⟩
        · cases h
    · rintro ⟨_ | ⟨b, before⟩, a', after, split, fine, h⟩
      · obtain ⟨rfl, rfl⟩ := List.cons.inj split
        exact .inl h
      · obtain ⟨rfl, rfl⟩ := List.cons.inj split
        obtain ⟨⟨c, hc⟩, fine⟩ := List.forall_mem_cons.1 fine
        exact .inr ⟨c, hc, bind_eq_error.2 (.inl (ih.2 ⟨before, a', after, rfl, fine, h⟩))⟩

namespace Diagnostics
variable {σ α : Type} {a b ds : Diagnostics}

theorem hasErrors_append : hasErrors (a ++ b) = (a.hasErrors || b.hasErrors) := List.any_append

theorem hasErrors_flatMap_eq_false {f : α → Diagnostics} {as : List α} :
    hasErrors (as.flatMap f) = false ↔ ∀ a ∈ as, (f a).hasErrors = false := by
  simp only [hasErrors, List.any_flatMap, List.any_eq_false, Bool.not_eq_true]

theorem gather_preserves {I : σ → Prop} {f : σ → α → σ × Diagnostics}
    (step : ∀ s a, I s → (f s a).2.hasErrors = false → I (f s a).1) (as : List α) {s : σ}
    (h : I s) (accepted : (gather f s as).2.hasErrors = false) : I (gather f s as).1 := by
  induction as generalizing s with
  | nil => exact h
  | cons a as ih =>
    simp only [gather, hasErrors_append, Bool.or_eq_false_iff] at accepted
    exact ih (step s a h accepted.1) accepted.2

theorem hasErrors_of_orValue {ds' : Diagnostics} {v : α} (h : ds.orValue v = .error ds') :
    ds'.hasErrors = true := by
  unfold orValue at h
  split at h
  · cases h
    assumption
  · cases h

/-- Reports that are all errors fail what they are about, unless there are none. -/
theorem hasErrors_of_forall (h : ∀ d ∈ ds, d.isError = true) (some : ds ≠ []) :
    ds.hasErrors = true := by
  obtain ⟨d, hd⟩ := List.exists_mem_of_ne_nil _ some
  exact List.any_eq_true.2 ⟨d, hd, h d hd⟩

theorem orValue_eq_ok {v w : α} : ds.orValue v = .ok w ↔ ds.hasErrors = false ∧ v = w := by
  unfold orValue
  cases hasErrors ds <;> simp

end Diagnostics

end PipelineResolution
