import PipelineResolution.Proofs.Failing
import PipelineResolution.Proofs.Step.Places

/-!
# Checks on the way

The settings of a step are checked when its block is decoded and again when a run has filled in what
waited. Settings on the way, with some of the later values stored already, break no rule that is kept
at both ends, except that an input without choices must not turn out to need them.
-/
namespace PipelineResolution
open Payload Addressing

/-- Each field is that of one of two payloads, of which the second has all that the first has. -/
structure Payload.Between {P : Type} [Payload P] (p q r : P) : Prop where
  grows {n : String} {f : Field P} :
    Field.ofName? fields n = some f → (f.get p).isSome → (f.get q).isSome
  get {n : String} {f : Field P} :
    Field.ofName? fields n = some f → f.get r = f.get p ∨ f.get r = f.get q

section
variable {l : Location}

theorem Email.check_between {p q r : Email} (between : Payload.Between p q r)
    (hp : (Payload.check p l).hasErrors = false) (hq : (Payload.check q l).hasErrors = false) :
    (Payload.check r l).hasErrors = false := by
  have port : r.port = p.port ∨ r.port = q.port := between.get (n := "port") rfl
  have recipients : r.recipients = p.recipients ∨ r.recipients = q.recipients :=
    between.get (n := "to") rfl
  simp only [Payload.check, check, Diagnostics.hasErrors_append, Bool.or_eq_false_iff] at hp hq ⊢
  constructor
  · rcases port with h | h <;> rw [h]
    exacts [hp.1, hq.1]
  · rcases recipients with h | h <;> rw [h]
    exacts [hp.2, hq.2]

theorem HttpRequest.check_between {p q r : HttpRequest} (between : Payload.Between p q r)
    (hp : (Payload.check p l).hasErrors = false) (hq : (Payload.check q l).hasErrors = false) :
    (Payload.check r l).hasErrors = false := by
  have method : r.method = p.method ∨ r.method = q.method := between.get (n := "method") rfl
  have timeout : r.timeout = p.timeout ∨ r.timeout = q.timeout :=
    between.get (n := "request_timeout_ms") rfl
  simp only [Payload.check, check, effectiveMethod, Diagnostics.hasErrors_append,
    Bool.or_eq_false_iff] at hp hq ⊢
  constructor
  · rcases method with h | h <;> rw [h]
    exacts [hp.1, hq.1]
  · rcases timeout with h | h <;> rw [h]
    exacts [hp.2, hq.2]

/-- An image and a source that meet on the way meet in the end as well. -/
theorem Container.check_between {p q r : Container} (between : Payload.Between p q r)
    (hp : (Payload.check p l).hasErrors = false) (hq : (Payload.check q l).hasErrors = false) :
    (Payload.check r l).hasErrors = false := by
  have image : r.image = p.image ∨ r.image = q.image := between.get (n := "image") rfl
  have source : r.source = p.source ∨ r.source = q.source := between.get (n := "source") rfl
  have swappiness : r.memorySwappiness = p.memorySwappiness ∨
    r.memorySwappiness = q.memorySwappiness := between.get (n := "memory_swappiness") rfl
  have image' : p.image.isSome → q.image.isSome := between.grows (n := "image") rfl
  have source' : p.source.isSome → q.source.isSome := between.grows (n := "source") rfl
  simp only [Payload.check, check, Diagnostics.hasErrors_append, Bool.or_eq_false_iff] at hp hq ⊢
  constructor
  · by_cases both : q.image.isSome ∧ q.source.isSome
    · rw [both.1, both.2] at hq
      cases hq.1
    · have alone : (r.image.isSome && r.source.isSome) = false := by grind
      rw [alone]
      rfl
  · rcases swappiness with h | h <;> rw [h]
    exacts [hp.2, hq.2]

end

/-- Whether two attributes are kept in a place. -/
def Place.Shared (P : Type) [Payload P] [Addressing P] (a : Place) : Prop :=
  ∃ m n, m ≠ n ∧ accepts P m ∧ accepts P n ∧ place P m = a ∧ place P n = a

theorem Place.not_shared {P : Type} [Payload P] [Addressing P] {a : Place} (name : String)
    (unique : ∀ m, accepts P m → place P m = a → m = name) : ¬a.Shared P := by
  rintro ⟨m, n, ne, hm, hn, hm', hn'⟩
  exact ne ((unique m hm hm').trans (unique n hn hn').symm)

/-- Settings on the way from one payload to another, of which the second has all that the first has.
Those without choices do not ask for any before the end, unless the first asks for them. -/
structure Addressing.Between {P : Type} [Payload P] [Addressing P] (p q r : P) : Prop where
  grows {a : Place} {f : Field P} : field? a = some f → (f.get p).isSome → (f.get q).isSome
  get {a : Place} {f : Field P} :
    field? a = some f → ¬a.Shared P → f.get r = f.get p ∨ f.get r = f.get q
  distinct : (declared r).Nodup
  chosen : declared r = [] → declared p = []
  typed {f : Field P} :
    field? (.own "type") = some f → declared r = [] → f.get r = f.get p ∨ declared q = []

/-- Rules that hold on the way if they hold at both ends. -/
class LawfulCheck (P : Type) [Payload P] [Addressing P] : Prop where
  check_between {p q r : P} {l : Location} : Addressing.Between p q r → (check p l).hasErrors = false →
    (check q l).hasErrors = false → (check r l).hasErrors = false

/-- Where every attribute has a field of its own, it suffices to look at the fields. -/
theorem LawfulCheck.ofTarget_id {P : Type} [Payload P]
    (check_between : ∀ {p q r : P} {l : Location}, Payload.Between p q r →
      (check p l).hasErrors = false → (check q l).hasErrors = false →
        (check r l).hasErrors = false) : @LawfulCheck P _ (.ofTarget id) := by
  let := Addressing.ofTarget (P := P) id
  refine ⟨fun between => check_between ⟨fun {n f} hf => ?_, fun {n f} hf => ?_⟩⟩
  · exact between.grows (a := .own n) hf
  · exact between.get (a := .own n) hf (Place.not_shared n fun m _ h => Place.own.inj h)

/-- Rules that look at one field. -/
theorem LawfulCheck.ofField {P : Type} [Payload P] (n : String) {f : Field P}
    (hf : Field.ofName? fields n = some f)
    (only : ∀ p q l, f.get p = f.get q → check p l = check q l) : @LawfulCheck P _ (.ofTarget id) := by
  refine .ofTarget_id fun {p q r l} between hp hq => ?_
  rcases between.get hf with same | same
  · rw [only r p l same]
    exact hp
  · rw [only r q l same]
    exact hq

instance : LawfulCheck HttpRequest where
  check_between between := by
    refine HttpRequest.check_between ⟨fun {n f} hf => ?_, fun {n f} hf => ?_⟩
    · exact between.grows (a := .own n) hf
    · refine between.get (a := .own n) hf (Place.not_shared n fun m _ h => ?_)
      dsimp only [Addressing.place] at h
      cases hm : HttpRequest.authName? m with
      | none => simpa [hm] using h
      | some inner => simp [hm] at h

@[simp] theorem Diagnostic.isError_validation (summary detail : String) (l : Location) :
    ((validation summary detail).about l).isError = true := rfl

@[simp] theorem Payload.isError_broken (l : Location) (name summary detail : String) :
    (broken l name summary detail).isError = true := rfl

namespace InputRequest

/-- A known type, with choices unless it is a text, and known styles. -/
theorem check_eq_false {p : InputRequest} {l : Location} : (Payload.check p l).hasErrors = false ↔
    (∀ word, p.type = some word →
      ∃ type, Keyword.parse InputType word = .ok type ∧ (p.options = [] → type = .text)) ∧
    ∀ o ∈ p.options, ∀ word, o.style = some word →
      ∃ style, Keyword.parse OptionStyle word = .ok style := by
  simp only [Payload.check, check, Diagnostics.hasErrors_append, Bool.or_eq_false_iff,
    Diagnostics.hasErrors_flatMap_eq_false]
  refine and_congr ?_ (forall₂_congr fun o _ => ?_)
  · cases p.type with
    | none => simp [Diagnostics.hasErrors]
    | some word =>
      cases known : Keyword.parse InputType word with
      | error e => simp [known, Diagnostics.hasErrors]
      | ok type => cases type <;> cases p.options <;> simp [known, Diagnostics.hasErrors]
  · unfold checkStyle
    cases o.style with
    | none => simp [Diagnostics.hasErrors]
    | some word =>
      cases known : Keyword.parse OptionStyle word <;> simp [known, Diagnostics.hasErrors]

theorem name_of_place_option {m x n : String} (h : place InputRequest m = .option x n) :
    m = "option." ++ (x ++ "." ++ n) := by
  dsimp only [Addressing.place] at h
  cases hm : optionName? m with
  | none => simp [hm] at h
  | some found =>
    obtain ⟨y, k⟩ := found
    obtain ⟨rfl, rfl⟩ : y = x ∧ k = n := by simpa [hm] using h
    obtain ⟨rest, hrest, hcut⟩ := Option.bind_eq_some_iff.1 (Option.filter_eq_some_iff.1 hm).1
    rw [Text.eq_of_dropStart? hrest, Text.eq_of_cutLast hcut]

/-- A `notify` block has no type. -/
theorem name_of_place_type {m : String} (accepted : accepts InputRequest m)
    (h : place InputRequest m = .own "type") : m = "type" := by
  dsimp only [Addressing.place] at h
  cases hm : optionName? m with
  | some found => simp [hm] at h
  | none =>
    have target : notifyTarget m = "type" := by simpa [hm] using h
    unfold notifyTarget at target
    cases hd : Text.dropStart? "notify." m with
    | none => rwa [hd] at target
    | some rest =>
      obtain rfl : rest = "type" := by rwa [hd] at target
      rw [Text.eq_of_dropStart? hd] at accepted
      exact absurd accepted (by decide)

theorem get_style {p : InputRequest} {x word : String} :
    (p.option? x).bind (·.style) = some word → ∃ o ∈ p.options, o.style = some word := by
  intro h
  obtain ⟨o, ho, style⟩ := Option.bind_eq_some_iff.1 h
  exact ⟨o, List.mem_of_find?_eq_some ho, style⟩

theorem find?_of_mem {os : List InputOption} {o : InputOption} (distinct : (os.map (·.value)).Nodup)
    (h : o ∈ os) : os.find? (·.value == o.value) = some o := by
  induction os with
  | nil => cases h
  | cons w os ih =>
    obtain ⟨other, distinct⟩ := List.nodup_cons.1 distinct
    rcases List.mem_cons.1 h with rfl | h
    · exact List.find?_cons_of_pos (beq_self_eq_true _)
    · have ne : w.value ≠ o.value := fun same => other (List.mem_map.2 ⟨o, h, same.symm⟩)
      rw [List.find?_cons_of_neg (by simpa using ne)]
      exact ih distinct h

instance : LawfulCheck InputRequest where
  check_between {p q r l} between hp hq := by
    rw [check_eq_false] at hp hq ⊢
    have empty (p : InputRequest) : Addressing.declared p = [] ↔ p.options = [] := List.map_eq_nil_iff
    constructor
    · intro word hword
      have unique := Place.not_shared "type" fun m accepted h => name_of_place_type accepted h
      have type : r.type = p.type ∨ r.type = q.type := between.get (a := .own "type") rfl unique
      have typed : declared r = [] → r.type = p.type ∨ declared q = [] := between.typed rfl
      have chosen := between.chosen
      rw [empty, empty] at chosen typed
      rcases type with same | same
      · obtain ⟨type, known, choices⟩ := hp.1 word (same ▸ hword)
        exact ⟨type, known, fun none => choices (chosen none)⟩
      · obtain ⟨type, known, choices⟩ := hq.1 word (same ▸ hword)
        refine ⟨type, known, fun none => ?_⟩
        rcases typed none with earlier | last
        · obtain ⟨type', known', choices'⟩ := hp.1 word (earlier ▸ hword)
          cases known.symm.trans known'
          exact choices' (chosen none)
        · exact choices last
    · intro o ho word hword
      have unique := Place.not_shared (a := .option o.value "style") _
        fun m _ h => name_of_place_option h
      have found : (r.option? o.value).bind (·.style) = some word := by
        rw [option?, find?_of_mem between.distinct ho]
        exact hword
      have style : (r.option? o.value).bind (·.style) = (p.option? o.value).bind (·.style) ∨
          (r.option? o.value).bind (·.style) = (q.option? o.value).bind (·.style) :=
        between.get (a := .option o.value "style") rfl unique
      rcases style with same | same
      · obtain ⟨u, hu, style⟩ := get_style (same.symm.trans found)
        exact hp.2 u hu word style
      · obtain ⟨u, hu, style⟩ := get_style (same.symm.trans found)
        exact hq.2 u hu word style

end InputRequest

instance : (kind : StepKind) → LawfulCheck kind.Settings
  | .http => inferInstanceAs (LawfulCheck HttpRequest)
  | .input => inferInstanceAs (LawfulCheck InputRequest)
  | .message => ⟨fun _ _ _ => rfl⟩
  | .sleep => .ofField "duration" rfl fun _ _ l same =>
    congrArg (fun duration => check (Sleep.mk duration) l) same
  | .query => .ofField "sql" rfl fun _ _ l same =>
    congrArg (fun sql => check ({ sql } : SqlQuery) l) same
  | .pipeline => .ofField "pipeline" rfl fun _ _ l same =>
    congrArg (fun pipeline => check ({ pipeline } : PipelineCall) l) same
  | .email => .ofTarget_id Email.check_between
  | .container => .ofTarget_id Container.check_between
  | .transform | .function => .ofTarget_id fun _ _ _ => rfl

end PipelineResolution
