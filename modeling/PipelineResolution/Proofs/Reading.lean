import PipelineResolution.Text.Source

/-!
# What readings give

`Gives P p` says that whatever a reading finds satisfies `P`, on every input. It is kept by each way
of building a reading from others, so a grammar is gone through rule by rule.
-/
namespace PipelineResolution.Reading
variable {σ τ α β : Type} {P : α → Prop} {Q : β → Prop} {p q : Reading σ α}

def Gives (P : α → Prop) (p : Reading σ α) : Prop := ∀ s a rest, p s = some (a, rest) → P a

namespace Gives

theorem any (p : Reading σ α) : Gives (fun _ => True) p := fun _ _ _ _ => trivial

theorem pure {a : α} (h : P a) : Gives P (Pure.pure a : Reading σ α) := by
  intro s b rest hs
  cases hs
  exact h

theorem fail : Gives P (Reading.fail : Reading σ α) := fun _ _ _ hs => nomatch hs

theorem bind {f : α → Reading σ β} (hp : Gives P p) (hf : ∀ a, P a → Gives Q (f a)) :
    Gives Q (p >>= f) := by
  intro s b rest hs
  simp only [Bind.bind] at hs
  cases ha : p s with
  | none => simp [ha] at hs
  | some found =>
    obtain ⟨a, next⟩ := found
    simp only [ha] at hs
    exact hf a (hp s a next ha) next b rest hs

/-- What comes first says nothing about the value. -/
theorem after {f : α → Reading σ β} (hf : ∀ a, Gives Q (f a)) : Gives Q (p >>= f) :=
  (any p).bind fun a _ => hf a

theorem orElse (hp : Gives P p) (hq : Gives P q) : Gives P (p <|> q) := by
  intro s a rest hs
  change Reading.orElse p (fun _ => q) s = some (a, rest) at hs
  unfold Reading.orElse at hs
  split at hs
  · exact hq s a rest hs
  · exact hp s a rest hs

theorem optional (hp : Gives P p) : Gives (fun found => ∀ a ∈ found, P a) p.optional := by
  intro s found rest hs
  unfold Reading.optional at hs
  split at hs
  · cases hs
    intro a ha
    cases ha
  · rename_i a next ha
    cases hs
    intro b hb
    cases hb
    exact hp s a _ ha

section Items
variable [Input σ τ]

theorem runMany (hp : Gives P p) (s : σ) : ∀ a ∈ (Reading.runMany p s).1, P a := by
  fun_induction Reading.runMany p s with
  | case1 s hs => simp
  | case2 s a rest hs hlt more last hm ih => simp_all [hp s a rest hs]
  | case3 s a rest hs hlt => simpa using hp s a rest hs

theorem many (hp : Gives P p) : Gives (fun found => ∀ a ∈ found, P a) (many p) := by
  intro s found rest hs
  have hm : Reading.runMany p s = (found, rest) := Option.some.inj hs
  have hall := runMany hp s
  rwa [hm] at hall

theorem sepBy1 (hp : Gives P p) (sep : Reading σ β) :
    Gives (fun found => ∀ a ∈ found, P a) (sepBy1 p sep) :=
  hp.bind fun first hf => (many (after fun _ => hp)).bind fun more hm =>
    pure (by simpa using ⟨hf, hm⟩)

theorem whole? {s : σ} {a : α} (hp : Gives P p) (h : Reading.whole? p s = some a) : P a := by
  unfold Reading.whole? at h
  split at h
  · rename_i b rest hs
    split at h
    · cases h
      exact hp s _ rest hs
    · cases h
  · cases h

end Items

theorem spelling {p : Reading Text.Source α} (hp : Gives P p) :
    Gives (fun found => P found.1) (Text.Source.spelling p) := by
  intro s found rest hs
  obtain ⟨⟨a, t⟩, ha, he⟩ := Option.map_eq_some_iff.1 hs
  cases he
  exact hp _ a t ha

end Gives
end PipelineResolution.Reading
