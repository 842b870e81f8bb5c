import Mathlib.Data.List.Pairwise
import PipelineResolution.Step.Basic

/-!
# Where a payload keeps its attributes

Each attribute of a kind has a place, and the field of that place stores its values. Fields of two
places do not touch each other, so the order in which they are set does not matter; only a choice of
an input has to be declared before, since the choices are kept in order.
-/
namespace PipelineResolution

/-- The name of an attribute only counts in the report on it. -/
theorem AttributeType.toOption_convert (t : AttributeType) (name other : String) (v : Value) :
    (t.convert name v).toOption = (t.convert other v).toOption := by
  unfold convert
  cases t.read v <;> rfl

namespace Field
variable {P : Type}

/-- What is put into a field is found there, until something else is put there. -/
structure Lawful (f : Field P) : Prop where
  get_put : ∀ d p, f.get (f.put d p) = some d
  put_put : ∀ c d p, f.put d (f.put c p) = f.put d p

/-- Two fields that do not touch each other. -/
structure Apart (f g : Field P) : Prop where
  put_comm : ∀ c d p, f.put c (g.put d p) = g.put d (f.put c p)
  get_left : ∀ d p, f.get (g.put d p) = f.get p
  get_right : ∀ c p, g.get (f.put c p) = g.get p

instance : Std.Symm (Apart (P := P)) where
  symm _ _ h := ⟨fun c d p => (h.put_comm d c p).symm, h.get_right, h.get_left⟩

structure Independent (fields : List (Field P)) : Prop where
  lawful : ∀ f ∈ fields, f.Lawful
  apart : fields.Pairwise Apart

def ofName? (fields : List (Field P)) (name : String) : Option (Field P) :=
  fields.find? (·.name == name)

variable {fields : List (Field P)} {f g : Field P} {m n : String}

theorem mem_of_ofName? (h : ofName? fields n = some f) : f ∈ fields := List.mem_of_find?_eq_some h

theorem name_of_ofName? (h : ofName? fields n = some f) : f.name = n := by
  simpa using List.find?_some h

theorem set_eq (fields : List (Field P)) (name spelled : String) (v : Value) (p : P) :
    set fields name spelled v p = match ofName? fields name with
      | some f => (f.type.convert spelled v).map (f.put · p)
      | none => .ok p := rfl

theorem Independent.apart_of_ne (h : Independent fields) (ne : m ≠ n)
    (hf : ofName? fields m = some f) (hg : ofName? fields n = some g) : f.Apart g := by
  refine h.apart.forall (mem_of_ofName? hf) (mem_of_ofName? hg) fun same => ne ?_
  rw [← name_of_ofName? hf, ← name_of_ofName? hg, same]

end Field

/-- Where a payload keeps an attribute. -/
inductive Place where
  | own (field : String)
  | auth (field : String)
  | option (value field : String)
  deriving DecidableEq

/-- The choice that a place belongs to. -/
def Place.option? : Place → Option String
  | .option value _ => some value
  | _ => none

class Addressing (P : Type) where
  place : String → Place
  field? : Place → Option (Field P)
  /-- The choices that are declared. -/
  declared : P → List String

open Addressing Payload

/-- Whether the choice that a place belongs to is declared. -/
def Place.Open {P : Type} [Addressing P] (a : Place) (p : P) : Prop :=
  ∀ x, a.option? = some x → x ∈ declared p

class LawfulAddressing (P : Type) [Payload P] [Addressing P] : Prop where
  set_eq (name : String) (v : Value) (p : P) : set name v p =
    match field? (place P name) with
    | some f => (f.type.convert name v).map (f.put · p)
    | none => .ok p
  lawful {a : Place} {f : Field P} : field? a = some f → f.Lawful
  put_comm {a b : Place} {f g : Field P} {p : P} : a ≠ b → field? a = some f → field? b = some g →
    a.Open p → ∀ c d, f.put c (g.put d p) = g.put d (f.put c p)
  get_put {a b : Place} {f g : Field P} : a ≠ b → field? a = some f → field? b = some g →
    ∀ c p, g.get (f.put c p) = g.get p
  open_put {a : Place} {f : Field P} {p : P} : field? a = some f → a.Open p →
    ∀ type labels c, openBlock type labels (f.put c p) = f.put c (openBlock type labels p)
  mem_declared_put {a : Place} {f : Field P} {p : P} {c : f.type.Data} {x : String} :
    field? a = some f → (x ∈ declared (f.put c p) ↔ a.option? = some x ∨ x ∈ declared p)
  mem_declared_open {p : P} {x : String} : x ∈ declared p →
    ∀ type labels, x ∈ declared (openBlock type labels p)
  mem_declared_own {name x : String} : (place P name).option? = some x →
    ∀ p : P, x ∈ declared (openBlock "option" [x] p)
  get_open {a : Place} {f : Field P} : field? a = some f →
    ∀ type labels p, f.get (openBlock type labels p) = f.get p
  declared_open {p q : P} : declared p ⊆ declared q →
    ∀ type labels, declared (openBlock type labels p) ⊆ declared (openBlock type labels q)
  nodup_empty : (declared (empty : P)).Nodup
  nodup_put {a : Place} {f : Field P} {p : P} : field? a = some f → (declared p).Nodup →
    ∀ c, (declared (f.put c p)).Nodup
  nodup_open {p : P} : (declared p).Nodup →
    ∀ type labels, (declared (openBlock type labels p)).Nodup

section
variable {P : Type} [Payload P]

/-- Attributes that are kept in the field of their target. -/
@[reducible] def Addressing.ofTarget (target : String → String) : Addressing P where
  place name := .own (target name)
  field?
    | .own name => Field.ofName? fields name
    | _ => none
  declared _ := []

theorem LawfulAddressing.ofTarget (target : String → String)
    (set_eq : ∀ name v (p : P), set name v p = Field.set fields (target name) name v p)
    (open_eq : ∀ type labels (p : P), openBlock type labels p = p)
    (independent : Field.Independent (fields : List (Field P))) :
    @LawfulAddressing P _ (.ofTarget target) := by
  let := Addressing.ofTarget (P := P) target
  have own {a : Place} {f : Field P} (h : field? a = some f) :
      ∃ n, a = .own n ∧ Field.ofName? fields n = some f := by
    cases a with
    | own n => exact ⟨n, rfl, h⟩
    | auth | option => cases h
  have apart {a b : Place} {f g : Field P} (ne : a ≠ b) (hf : field? a = some f)
      (hg : field? b = some g) : f.Apart g := by
    obtain ⟨m, rfl, hf⟩ := own hf
    obtain ⟨n, rfl, hg⟩ := own hg
    exact independent.apart_of_ne (fun h => ne (congrArg _ h)) hf hg
  exact
    { set_eq := set_eq
      lawful := fun h =>
        have ⟨_, _, hf⟩ := own h
        independent.lawful _ (Field.mem_of_ofName? hf)
      put_comm := fun ne hf hg _ c d => (apart ne hf hg).put_comm c d _
      get_put := fun ne hf hg => (apart ne hf hg).get_right
      open_put := fun _ _ _ _ _ => by rw [open_eq, open_eq]
      mem_declared_put := fun h => by
        obtain ⟨_, rfl, -⟩ := own h
        exact ⟨fun hx => (nomatch hx), fun hx => hx.elim nofun id⟩
      mem_declared_open := fun hx => nomatch hx
      mem_declared_own := fun h => nomatch h
      get_open := fun _ _ _ _ => by rw [open_eq]
      declared_open := fun h _ _ => h
      nodup_empty := .nil
      nodup_put := fun _ _ _ => .nil
      nodup_open := fun _ _ _ => .nil }

end

namespace Addressing
variable {P : Type} [Payload P] [Addressing P] {m n : String} {v w : Value} {p q : P}

/-- Whether a value is of the type of an attribute. -/
def Fits (P : Type) [Addressing P] (name : String) (v : Value) : Prop :=
  ∀ f : Field P, field? (place P name) = some f → ∃ d, f.type.convert name v = .ok d

/-- The payload with a value in the place of an attribute, where it is of its type. -/
def store (name : String) (v : Value) (p : P) : P :=
  match field? (place P name) with
  | some f => ((f.type.convert name v).toOption.map (f.put · p)).getD p
  | none => p

/-- A value is stored in the field of its attribute, or else nothing is. -/
theorem store_cases (P : Type) [Addressing P] (name : String) (v : Value) :
    (∀ p : P, store name v p = p) ∨
      ∃ f d, field? (P := P) (place P name) = some f ∧ ∀ p, store name v p = f.put d p := by
  unfold store
  cases hf : field? (P := P) (place P name) with
  | none => exact .inl fun p => rfl
  | some f =>
    cases hd : f.type.convert name v with
    | error m => exact .inl fun p => by simp only [hd]; rfl
    | ok d => exact .inr ⟨f, d, rfl, fun p => by simp only [hd]; rfl⟩

/-- Only the place of an attribute counts. -/
theorem store_congr {P : Type} [Addressing P] (same : place P m = place P n) (p : P) :
    store m v p = store n v p := by
  unfold store
  rw [same]
  cases field? (P := P) (place P n) with
  | none => rfl
  | some f =>
    dsimp only
    rw [f.type.toOption_convert m n v]

variable [LawfulAddressing P]

theorem set_eq_ok : set n v p = .ok q ↔ Fits P n v ∧ q = store n v p := by
  rw [LawfulAddressing.set_eq]
  unfold Fits store
  cases field? (P := P) (place P n) with
  | none => simp [eq_comm]
  | some f =>
    cases hd : f.type.convert n v with
    | error m => simp [hd, Except.map]
    | ok d => simp [hd, Except.map, Except.toOption, eq_comm]

theorem store_comm (ne : place P m ≠ place P n) (hm : (place P m).Open p) :
    store m v (store n w p) = store n w (store m v p) := by
  rcases store_cases P m v with left | ⟨f, c, hf, left⟩
  · rw [left, left]
  · rcases store_cases P n w with right | ⟨g, d, hg, right⟩
    · rw [right, right]
    · rw [left, right, left, right]
      exact LawfulAddressing.put_comm ne hf hg hm c d

theorem store_open (hn : (place P n).Open p) (type : String) (labels : List String) :
    openBlock type labels (store n v p) = store n v (openBlock type labels p) := by
  rcases store_cases P n v with kept | ⟨f, c, hf, kept⟩
  · rw [kept, kept]
  · rw [kept, kept]
    exact LawfulAddressing.open_put hf hn type labels c

/-- Of two values for one place the later counts. -/
theorem store_store (same : place P m = place P n) (fits : Fits P n w) :
    store n w (store m v p) = store n w p := by
  rcases store_cases P m v with left | ⟨f, c, hf, left⟩
  · rw [left]
  · obtain ⟨d, hd⟩ := fits f (same ▸ hf)
    have right (p : P) : store n w p = f.put d p := by
      unfold store
      simp only [← same, hf, hd]
      rfl
    rw [left, right, right]
    exact (LawfulAddressing.lawful hf).put_put c d p

end Addressing

namespace Place
variable {P : Type} [Payload P] [Addressing P] [LawfulAddressing P] {a : Place} {p : P}

theorem Open.store (h : a.Open p) (n : String) (v : Value) : a.Open (store n v p) := by
  intro x hx
  rcases store_cases P n v with kept | ⟨f, c, hf, kept⟩
  · rw [kept]
    exact h x hx
  · rw [kept]
    exact (LawfulAddressing.mem_declared_put hf).2 (.inr (h x hx))

theorem Open.open (h : a.Open p) (type : String) (labels : List String) :
    a.Open (openBlock type labels p) :=
  fun x hx => LawfulAddressing.mem_declared_open (h x hx) type labels

end Place
end PipelineResolution
