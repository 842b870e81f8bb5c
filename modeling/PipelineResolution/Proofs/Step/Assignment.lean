import PipelineResolution.Proofs.AttributeType
import PipelineResolution.Proofs.Step.Options
import PipelineResolution.Step.Assignment

/-!
# What an assignment leaves behind

An assignment in place ends with the payload that a stored value gives, or stops before its first
write. The mismatch it stops with tells the name that was set and what did not fit the attribute.
-/
namespace PipelineResolution
open Payload Addressing

/-- An assignment that ends with a payload, or else leaves another as it was. -/
def Writing.ended {P : Type} (p : P) : Except TypeMismatch P → Except TypeMismatch Unit × P
  | .ok q => (.ok (), q)
  | .error m => (.error m, p)

/-- A value is stored in the record that the way to its field reaches. The way is not taken when the
value does not fit. -/
theorem Field.run_assign {P Q : Type} {fields : List (Field Q)} {name spelled : String} {v : Value}
    {reach : P → P} {within : (Q → Q) → P → P} {p : P} (store : (Q → Q) → P → P)
    (reached : ∀ f ∈ fields, ∀ d, within (f.put d) (reach p) = store (f.put d) p) :
    (assign fields name spelled v reach within).run p = Writing.ended p
      (match ofName? fields name with
        | some f => (f.type.convert spelled v).map fun d => store (f.put d) p
        | none => .ok p) := by
  unfold assign
  change (match ofName? fields name with | some f => _ | none => _ : Writing P Unit).run p = _
  cases hf : ofName? fields name with
  | none => rfl
  | some f =>
    dsimp only
    cases hd : f.type.convert spelled v with
    | error m => rfl
    | ok d => exact congrArg (Prod.mk _) (reached f (mem_of_ofName? hf) d)

theorem Payload.run_assignOwn {P : Type} [Payload P] (name spelled : String) (v : Value) (p : P) :
    (assignOwn name spelled v).run p = Writing.ended p (Field.set fields name spelled v p) :=
  Field.run_assign (fun change p => change p) fun _ _ _ => rfl

namespace HttpRequest

theorem run_assign (name : String) (v : Value) (p : HttpRequest) :
    (assign name v).run p = Writing.ended p (Payload.set name v p) := by
  unfold assign
  dsimp only [Payload.set]
  cases known : authName? name with
  | none => exact run_assignOwn name name v p
  | some inner =>
    refine (Field.run_assign (fun change p =>
      { p with auth := some (change (p.auth.getD {})) }) fun _ _ _ => rfl).trans ?_
    obtain ⟨f, hf⟩ := ofName?_of_authName? known
    dsimp only
    rw [Field.set_eq, hf]
    dsimp only
    cases f.type.convert name v <;> rfl

end HttpRequest

namespace InputRequest

/-- To change the first option of a value that was just put there is to put the changed one. -/
theorem modify_putOption {o : InputOption} {x : String} {change : InputOption → InputOption}
    (own : o.value = x) (kept : (change o).value = x) (os : List InputOption) :
    (putOption o os).modify ((putOption o os).findIdx (·.value == x)) change =
      putOption (change o) os := by
  induction os with
  | nil => simp [putOption, own]
  | cons u os ih =>
    by_cases same : u.value = x
    · simp [putOption, own, kept, same, List.findIdx_cons]
    · have other : (u.value == x) = false := beq_eq_false_iff_ne.2 same
      simp [putOption, own, kept, other, List.findIdx_cons, ih]

theorem run_assign (name : String) (v : Value) (p : InputRequest) :
    (assign name v).run p = Writing.ended p (Payload.set name v p) := by
  unfold assign
  dsimp only [Payload.set]
  cases known : optionName? name with
  | none => exact run_assignOwn (notifyTarget name) name v p
  | some found =>
    obtain ⟨x, inner⟩ := found
    refine (Field.run_assign (fun change p =>
      { p with options := putOption (change (p.optionOf x)) p.options }) fun f hf d => ?_).trans ?_
    · have own : (p.optionOf x).value = x := value_optionOf p x
      have kept : (f.put d (p.optionOf x)).value = x :=
        (InputOption.value_put f hf d _).trans own
      exact congrArg (fun os => ({ p with options := os } : InputRequest))
        (modify_putOption own kept p.options)
    · obtain ⟨f, hf⟩ := ofName?_of_optionName? known
      dsimp only
      rw [Field.set_eq, hf]
      dsimp only
      cases f.type.convert name v <;> rfl

end InputRequest

theorem StepKind.run_assign (kind : StepKind) (name : String) (v : Value) (p : kind.Settings) :
    (kind.assign name v).run p = Writing.ended p (Payload.set name v p) := by
  cases kind with
  | http => exact HttpRequest.run_assign name v p
  | input => exact InputRequest.run_assign name v p
  | message => exact run_assignOwn (P := Message) (notifyTarget name) name v p
  | sleep => exact run_assignOwn (P := Sleep) name name v p
  | email => exact run_assignOwn (P := Email) name name v p
  | transform => exact run_assignOwn (P := Transform) name name v p
  | query => exact run_assignOwn (P := SqlQuery) name name v p
  | pipeline => exact run_assignOwn (P := PipelineCall) name name v p
  | function => exact run_assignOwn (P := FunctionCall) name name v p
  | container => exact run_assignOwn (P := Container) name name v p

/-- The type of the attribute that a name is set in. -/
def StepKind.typeOf? (kind : StepKind) (name : String) : Option AttributeType :=
  (field? (Addressing.place kind.Settings name) : Option (Field kind.Settings)).map (·.type)

theorem AttributeType.convert_eq_error {t : AttributeType} {name : String} {v : Value}
    {m : TypeMismatch} : t.convert name v = .error m ↔
      ∃ w, t.Offends v w ∧ m = ⟨name, t.name, w.typeName⟩ := by
  simp only [← read_eq_error]
  unfold convert
  cases t.read v with
  | ok d => exact ⟨(nomatch ·), fun ⟨_, h, _⟩ => nomatch h⟩
  | error w =>
    constructor
    · intro h
      cases h
      exact ⟨w, rfl, rfl⟩
    · rintro ⟨_, h, rfl⟩
      cases h
      rfl

/-- A value is refused exactly when it does not fit the type of its attribute. -/
theorem StepKind.set_eq_error {kind : StepKind} {name : String} {v : Value} {p : kind.Settings}
    {m : TypeMismatch} : Payload.set name v p = .error m ↔
      ∃ t w, kind.typeOf? name = some t ∧ t.Offends v w ∧ m = ⟨name, t.name, w.typeName⟩ := by
  rw [LawfulAddressing.set_eq]
  unfold typeOf?
  cases field? (P := kind.Settings) (Addressing.place kind.Settings name) with
  | none => exact ⟨(nomatch ·), fun ⟨_, _, h, _⟩ => nomatch h⟩
  | some f =>
    have refused : (f.type.convert name v).map (f.put · p) = .error m ↔
        f.type.convert name v = .error m := by
      cases f.type.convert name v <;> simp [Except.map]
    dsimp only
    rw [refused, AttributeType.convert_eq_error]
    constructor
    · rintro ⟨w, offends, rfl⟩
      exact ⟨f.type, w, rfl, offends, rfl⟩
    · rintro ⟨t, w, h, offends, rfl⟩
      cases h
      exact ⟨w, offends, rfl⟩

namespace StepSpec

/-- An assignment in place is a stored value or else leaves everything as it was. -/
theorem assign_eq (s : StepSpec) (name : String) (v : Value) :
    s.assign name v = Writing.ended s (s.set name v) := by
  unfold assign set
  rw [StepKind.run_assign]
  cases Payload.set name v s.settings <;> rfl

/-- An assignment stops exactly at a value that does not fit the attribute, or at the element of it
that does not. It then leaves the payload as it was, whatever would have been made on the way to the
attribute, and tells the name that was set and the type of what does not fit. -/
theorem assign_eq_error_iff {s t : StepSpec} {name : String} {v : Value} {m : TypeMismatch} :
    s.assign name v = (.error m, t) ↔ t = s ∧ ∃ type w, s.kind.typeOf? name = some type ∧
      type.Offends v w ∧ m = ⟨name, type.name, w.typeName⟩ := by
  rw [assign_eq, ← StepKind.set_eq_error (p := s.settings)]
  unfold set
  cases Payload.set name v s.settings with
  | ok q => exact ⟨(nomatch ·), fun h => nomatch h.2⟩
  | error m' =>
    constructor
    · intro h
      cases h
      exact ⟨rfl, rfl⟩
    · rintro ⟨rfl, h⟩
      cases h
      rfl

/-- No option is declared for a label that is no text. -/
example : (ofKind .input).assign "option.yes.label" .null =
    (.error ⟨"option.yes.label", "string", "null"⟩, ofKind .input) := rfl

end StepSpec
end PipelineResolution
