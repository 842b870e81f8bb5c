import PipelineResolution.Proofs.Step.Options

/-!
# Names that a kind does not take

A value under a name that no attribute of the kind has is passed over. The names of a `notify` block
are the exception: its dot is taken off any name, also where the rest names an attribute that the
block does not have, and that attribute of the body is then set.
-/
namespace PipelineResolution
open Payload Addressing

theorem Field.ofName?_eq_none {P : Type} {fields : List (Field P)} {name : String}
    (h : name ∉ names fields) : ofName? fields name = none :=
  Option.not_isSome_iff_eq_none.1 fun found => h (mem_names.2 found)

/-- The attributes of a body that are also set under a name inside a `notify` block, though the
block does not have them. -/
def StepKind.strays : StepKind → List String
  | .input => ["notify.prompt", "notify.type"]
  | .message => ["notify.text"]
  | .http | .sleep | .email | .transform | .query | .pipeline | .function | .container => []

/-- Apart from the strays, the target of a name that is not taken is no field either. -/
theorem notMem_notifyTarget {P : Type} {fields : List (Field P)} {name : String}
    (outside : name ∉ Field.names fields) (inside : isNotifyName name = false)
    (known : ∀ n ∈ Field.names fields, n ∉ notifyNames → name ≠ "notify." ++ n) :
    notifyTarget name ∉ Field.names fields := by
  unfold notifyTarget
  cases dropped : Text.dropStart? "notify." name with
  | none => exact outside
  | some inner =>
    rw [isNotifyName, dropped, Option.any_some] at inside
    refine fun mem => known inner mem (fun listed => ?_) (Text.eq_of_dropStart? dropped)
    exact Bool.false_ne_true (inside.symm.trans (List.contains_iff_mem.2 listed))

namespace StepKind
variable {kind : StepKind} {name : String}

/-- A name that is not taken has no place in the payload, unless it is a stray. -/
theorem field?_of_not_accepts (unknown : kind.accepts name = false) (known : name ∉ kind.strays) :
    (field? (kind.place name) : Option (Field kind.Settings)) = none := by
  have notMem {P : Type} {fields : List (Field P)}
      (h : (Field.names fields).contains name = false) : name ∉ Field.names fields :=
    fun mem => Bool.false_ne_true (h.symm.trans (List.contains_iff_mem.2 mem))
  cases kind with
  | http =>
    obtain ⟨own, auth⟩ := Bool.or_eq_false_iff.1 unknown
    have absent : HttpRequest.authName? name = none := by simpa using auth
    have outside : Addressing.place HttpRequest name = .own name := by
      dsimp only [Addressing.place]
      rw [absent]
      rfl
    change field? (Addressing.place HttpRequest name) = none
    rw [outside]
    exact Field.ofName?_eq_none (notMem own)
  | input =>
    obtain ⟨outer, option⟩ := Bool.or_eq_false_iff.1 unknown
    obtain ⟨own, notify⟩ := Bool.or_eq_false_iff.1 outer
    have absent : InputRequest.optionName? name = none := by simpa using option
    have outside : Addressing.place InputRequest name = .own (notifyTarget name) := by
      dsimp only [Addressing.place]
      rw [absent]
      rfl
    have listed : ∀ n ∈ Field.names InputRequest.fields, n ∉ notifyNames →
        "notify." ++ n ∈ input.strays := by decide
    change field? (Addressing.place InputRequest name) = none
    rw [outside]
    exact Field.ofName?_eq_none (notMem_notifyTarget (notMem own) notify fun n mem other same =>
      known (same ▸ listed n mem other))
  | message =>
    obtain ⟨own, notify⟩ := Bool.or_eq_false_iff.1 unknown
    have listed : ∀ n ∈ Field.names Message.fields, n ∉ notifyNames →
        "notify." ++ n ∈ message.strays := by decide
    exact Field.ofName?_eq_none (notMem_notifyTarget (notMem own) notify fun n mem other same =>
      known (same ▸ listed n mem other))
  | sleep | email | transform | query | pipeline | function | container =>
    exact Field.ofName?_eq_none (notMem unknown)

/-- A stray reaches the attribute of the body that its target names. -/
theorem place_of_stray (stray : name ∈ kind.strays) :
    kind.place name = kind.place (notifyTarget name) := by
  cases kind with
  | input =>
    have same : ∀ n ∈ input.strays, input.place n = input.place (notifyTarget n) := by decide
    exact same name stray
  | message =>
    have same : ∀ n ∈ message.strays, message.place n = message.place (notifyTarget n) := by decide
    exact same name stray
  | http | sleep | email | transform | query | pipeline | function | container => cases stray

/-- Names with one place set the same. -/
theorem toOption_set {m n : String} (same : kind.place m = kind.place n) (v : Value)
    (p : kind.Settings) : (Payload.set m v p).toOption = (Payload.set n v p).toOption := by
  have same : Addressing.place kind.Settings m = Addressing.place kind.Settings n := same
  rw [LawfulAddressing.set_eq, LawfulAddressing.set_eq, same]
  cases field? (P := kind.Settings) (Addressing.place kind.Settings n) with
  | none => rfl
  | some f =>
    have drop (name : String) : ((f.type.convert name v).map (f.put · p)).toOption =
        (f.type.convert name v).toOption.map (f.put · p) := by
      cases f.type.convert name v <;> rfl
    dsimp only
    rw [drop, drop, f.type.toOption_convert m n v]

/-- A name that is not taken is passed over in every payload, unless it is a stray: then the
attribute of the body is set instead. -/
theorem passed_over_iff (unknown : kind.accepts name = false) :
    ((∀ (p : kind.Settings) (v : Value), Payload.set name v p = .ok p) ↔ name ∉ kind.strays) ∧
      (name ∈ kind.strays → ∀ (p : kind.Settings) (v : Value),
        (Payload.set name v p).toOption = (Payload.set (notifyTarget name) v p).toOption) := by
  refine ⟨⟨fun passed stray => ?_, fun known p v => ?_⟩, fun stray p v =>
    toOption_set (place_of_stray stray) v p⟩
  · cases kind with
    | input =>
      have written : Payload.set name (.string "x") ({} : InputRequest) = .ok {} := passed _ _
      simp only [strays, List.mem_cons, List.not_mem_nil, or_false] at stray
      rcases stray with rfl | rfl
      · cases congrArg (fun r => r.toOption.bind InputRequest.prompt) written
      · cases congrArg (fun r => r.toOption.bind InputRequest.type) written
    | message =>
      have written : Payload.set name (.string "x") ({} : Message) = .ok {} := passed _ _
      obtain rfl := List.mem_singleton.1 stray
      cases congrArg (fun r => r.toOption.bind Message.text) written
    | http | sleep | email | transform | query | pipeline | function | container => cases stray
  · have nowhere : field? (Addressing.place kind.Settings name) = (none : Option (Field _)) :=
      field?_of_not_accepts unknown known
    rw [LawfulAddressing.set_eq, nowhere]

/-- Both ways meet in a message: its block has no text. -/
theorem passed_over_message :
    (∀ (p : StepKind.message.Settings) (v : Value), Payload.set "notify.title" v p = .ok p) ∧
      ¬∀ (p : StepKind.message.Settings) (v : Value), Payload.set "notify.text" v p = .ok p := by
  have title := @passed_over_iff .message "notify.title" (by decide)
  have text := @passed_over_iff .message "notify.text" (by decide)
  exact ⟨title.1.2 (by decide), fun passed => text.1.1 passed (by decide)⟩

/-- A name that is not taken is not always passed over. -/
theorem not_passed_over : ¬∀ (kind : StepKind) (name : String), kind.accepts name = false →
    ∀ (p : kind.Settings) (v : Value), Payload.set name v p = .ok p := by
  intro claim
  have passed := claim .message "notify.text" (by decide) ({} : Message) (.string "x")
  have passed : Payload.set "notify.text" (.string "x") ({} : Message) = .ok {} := passed
  cases congrArg (fun r => r.toOption.bind Message.text) passed

end StepKind
end PipelineResolution
