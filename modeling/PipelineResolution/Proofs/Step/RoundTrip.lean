import PipelineResolution.Proofs.Step.Equality
import PipelineResolution.Proofs.Step.Places

/-!
# Payloads read back from JSON

The settings that calls leave behind can be held in JSON, and are read back from it as equal ones
unless one of them is null.
-/
namespace PipelineResolution
open Payload Addressing

namespace Field
variable {P : Type} {fields : List (Field P)} {f : Field P} {p q : P}
  {entries : List (String × Json)}

theorem get?_ofEntries (distinct : (entries.map Prod.fst).Nodup)
    (written : ∀ j, (f.name, j) ∈ entries ↔ (f.get p).map f.type.toJson = some j) :
    (Dict.ofEntries entries).get? f.name = (f.get p).map f.type.toJson := by
  ext j
  rw [Dict.get?_ofEntries distinct, written]

theorem agree_eq (back : ∀ f ∈ fields, (f.get q == f.get p) = !f.holdsNull p) :
    agree fields q p = !fields.any (·.holdsNull p) := by
  induction fields with
  | nil => rfl
  | cons f fs ih =>
    obtain ⟨first, back⟩ := List.forall_mem_cons.1 back
    simp only [agree] at ih
    simp only [agree, List.all_cons, List.any_cons, first, ih back, Bool.not_or]

/-- Plain data is never null and is read back as it was. -/
theorem get_eq_of_back (plain : f.type.isPlain = true)
    (back : (f.get q == f.get p) = !f.holdsNull p) : f.get q = f.get p := by
  have set : f.holdsNull p = false := by
    unfold holdsNull
    rcases f.get p with _ | d
    · rfl
    · exact AttributeType.isNull_toValue plain
  rw [set] at back
  exact get_eq_of_beq plain back

end Field

namespace BasicAuth

theorem ofName?_name : ∀ f ∈ fields, Field.ofName? fields f.name = some f := by
  repeat refine List.forall_mem_cons.2 ⟨rfl, ?_⟩
  exact List.forall_mem_nil _

theorem expressible : ∀ f ∈ fields, ∀ d, f.type.Expressible d := by
  repeat refine List.forall_mem_cons.2 ⟨fun _ => trivial, ?_⟩
  exact List.forall_mem_nil _

theorem unset : ∀ f ∈ fields, f.get ({} : BasicAuth) = none := by
  repeat refine List.forall_mem_cons.2 ⟨rfl, ?_⟩
  exact List.forall_mem_nil _

theorem ofJson?_toJson (a : BasicAuth) :
    ofJson? (Json.ofFields (Field.toJson fields a)) = some a := by
  have distinct : ((Field.toJson fields a).map Prod.fst).Nodup :=
    (by decide : (Field.names fields).Nodup).sublist (Field.keys_toJson_sublist fields a)
  obtain ⟨b, read, back, -⟩ := Field.exists_ofJson? (p := a) HttpRequest.independent_auth
    (fun f hf => Field.get?_ofEntries distinct fun _ => Field.mem_toJson ofName?_name hf)
    (fun f hf d _ => expressible f hf d) unset
  have same : b = a := by
    have username := Field.get_eq_of_back rfl (back _ List.mem_cons_self)
    have password := Field.get_eq_of_back rfl
      (back _ (List.mem_cons_of_mem _ List.mem_cons_self))
    exact congrArg₂ BasicAuth.mk username password
  exact same ▸ read

end BasicAuth

namespace InputOption

theorem expressible : ∀ f ∈ fields, ∀ d, f.type.Expressible d := by
  repeat refine List.forall_mem_cons.2 ⟨fun _ => trivial, ?_⟩
  exact List.forall_mem_nil _

theorem unset (x : String) : ∀ f ∈ fields, f.get ({ value := x } : InputOption) = none := by
  repeat refine List.forall_mem_cons.2 ⟨rfl, ?_⟩
  exact List.forall_mem_nil _

theorem ofJson?_toJson (o : InputOption) : ofJson? o.toJson = some o := by
  have distinct : ((("value", Json.string o.value) :: Field.toJson fields o).map Prod.fst).Nodup :=
    (by decide : ("value" :: Field.names fields).Nodup).sublist
      ((Field.keys_toJson_sublist fields o).cons_cons "value")
  have other : ∀ f ∈ fields, f.name ≠ "value" := by simp [fields]
  obtain ⟨u, read, back, kept⟩ := Field.exists_ofJson? (p := o) InputRequest.independent_option
    (fun f hf => Field.get?_ofEntries distinct fun j => by
      rw [List.mem_cons, or_iff_right (by simp [other f hf]), Field.mem_toJson ofName?_name hf])
    (fun f hf d _ => expressible f hf d) (unset o.value)
  have same : u = o := by
    have value : u.value = o.value := kept (·.value) value_put
    have label := Field.get_eq_of_back rfl (back _ List.mem_cons_self)
    have selected := Field.get_eq_of_back rfl
      (back _ (List.mem_cons_of_mem _ List.mem_cons_self))
    have style := Field.get_eq_of_back rfl
      (back _ (List.mem_cons_of_mem _ (List.mem_cons_of_mem _ List.mem_cons_self)))
    obtain ⟨_, _, _, _⟩ := u
    obtain ⟨_, _, _, _⟩ := o
    exact InputOption.mk.injEq .. ▸ ⟨value, label, selected, style⟩
  have value : Dict.required (Dict.ofEntries (("value", .string o.value) :: Field.toJson fields o))
      "value" Json.text? = some o.value := by
    rw [Dict.required, (Dict.get?_ofEntries distinct).2 List.mem_cons_self]
    rfl
  change (Dict.required _ "value" Json.text? >>= fun value => Field.ofJson? fields _ { value }) = _
  rw [value]
  exact same ▸ read

end InputOption

/-- A record in which what is written of a payload can be looked up. -/
def Payload.Written {P : Type} [Payload P] (record : Dict Json) (p : P) : Prop :=
  ∀ name ∈ entryNames P, ∀ j, record.get? name = some j ↔ (name, j) ∈ Payload.toJson p

/-- Settings that JSON can hold. -/
def Payload.Expressible {P : Type} [Payload P] (p : P) : Prop :=
  ∀ f ∈ (Payload.fields : List (Field P)), ∀ d, f.get p = some d → f.type.Expressible d

/-- Whether a setting is null. -/
def Payload.holdsNull {P : Type} [Payload P] (p : P) : Bool :=
  (Payload.fields : List (Field P)).any (·.holdsNull p)

namespace StepKind

theorem ofName?_name (kind : StepKind) :
    ∀ f ∈ (Payload.fields : List (Field kind.Settings)),
      Field.ofName? Payload.fields f.name = some f := by
  cases kind
  all_goals
    repeat refine List.forall_mem_cons.2 ⟨rfl, ?_⟩
    exact List.forall_mem_nil _

theorem unset (kind : StepKind) :
    ∀ f ∈ (Payload.fields : List (Field kind.Settings)), f.get Payload.empty = none := by
  cases kind
  all_goals
    repeat refine List.forall_mem_cons.2 ⟨rfl, ?_⟩
    exact List.forall_mem_nil _

theorem names_sublist (kind : StepKind) :
    (Field.names (Payload.fields : List (Field kind.Settings))).Sublist
      (entryNames kind.Settings) := by
  cases kind <;> decide

variable {kind : StepKind} {record : Dict Json} {p : kind.Settings} {extra : List (String × Json)}

section
variable (kind) (written : Written record p)
  (entries : Payload.toJson p = Field.toJson Payload.fields p ++ extra)
include written entries

/-- The fields are found in the record. -/
theorem get?_field
    (foreign : ∀ e ∈ extra, e.1 ∉ Field.names (Payload.fields : List (Field kind.Settings))) :
    ∀ f ∈ (Payload.fields : List (Field kind.Settings)),
      record.get? f.name = (f.get p).map f.type.toJson := by
  intro f hf
  have named : f.name ∈ Field.names (Payload.fields : List (Field kind.Settings)) :=
    List.mem_map_of_mem hf
  ext j
  rw [written f.name (kind.names_sublist.subset named) j, entries, List.mem_append,
    or_iff_left fun h => foreign _ h named, Field.mem_toJson kind.ofName?_name hf]

/-- What is not a field is found there as well. -/
theorem get?_extra {name : String} (listed : name ∈ entryNames kind.Settings)
    (foreign : name ∉ Field.names (Payload.fields : List (Field kind.Settings))) (j : Json) :
    record.get? name = some j ↔ (name, j) ∈ extra := by
  rw [written name listed j, entries, List.mem_append]
  refine or_iff_right fun h => foreign ?_
  exact (Field.keys_toJson_sublist _ p).subset (List.mem_map_of_mem h)

end

/-- Flat settings are read back, as they were unless one of them is null. -/
theorem readBack_flat (flat : kind.Flat) (written : Written record p)
    (expressible : Payload.Expressible p) :
    ∃ q : kind.Settings, Payload.ofJson? record = some q ∧ (q == p) = !Payload.holdsNull p := by
  have alone : Payload.toJson p = Field.toJson Payload.fields p ++ [] ∧
      (Payload.ofJson? record : Option kind.Settings) =
        Field.ofJson? Payload.fields record Payload.empty := by
    obtain ⟨http, input⟩ := flat
    cases kind
    case http => exact absurd rfl http
    case input => exact absurd rfl input
    all_goals exact ⟨(List.append_nil _).symm, rfl⟩
  obtain ⟨q, read, back, -⟩ := Field.exists_ofJson? kind.independent
    (get?_field kind written alone.1 (List.forall_mem_nil _)) expressible kind.unset
  exact ⟨q, alone.2.trans read, (beq_eq flat q p).trans (Field.agree_eq back)⟩

end StepKind

namespace HttpRequest
variable {record : Dict Json} {p : HttpRequest}

theorem optional_auth (written : Written record p) :
    record.optional "basic_auth" BasicAuth.ofJson? = some p.auth := by
  have found : record.get? "basic_auth" =
      p.auth.map (Json.ofFields <| Field.toJson BasicAuth.fields ·) := by
    ext j
    rw [StepKind.get?_extra .http written rfl (by decide) (by decide) j]
    simp [Dict.field]
  rw [Dict.optional, found]
  cases p.auth with
  | none => rfl
  | some a =>
    change (BasicAuth.ofJson? _).map some = some (some a)
    rw [BasicAuth.ofJson?_toJson, Option.map_some]

theorem readBack (written : Written record p) (expressible : Payload.Expressible p) :
    ∃ q : HttpRequest, Payload.ofJson? record = some q ∧ (q == p) = !Payload.holdsNull p := by
  have foreign : ∀ e ∈ Dict.field "basic_auth"
      (Json.ofFields <| Field.toJson BasicAuth.fields ·) p.auth, e.1 ∉ Field.names fields := by
    have named : "basic_auth" ∉ Field.names fields := by decide
    cases p.auth with
    | none => exact List.forall_mem_nil _
    | some a => exact List.forall_mem_singleton.2 named
  obtain ⟨q, read, back, -⟩ := Field.exists_ofJson? (StepKind.independent .http)
    (StepKind.get?_field .http written rfl foreign) expressible (StepKind.unset .http)
  refine ⟨{ q with auth := p.auth }, ?_, ?_⟩
  · change (Field.ofJson? fields record {} >>= fun q =>
      record.optional "basic_auth" BasicAuth.ofJson? >>= fun auth => some { q with auth }) = _
    rw [optional_auth written, show Field.ofJson? fields record {} = some q from read]
    rfl
  · rw [beq_eq, beq_self_eq_true, Bool.and_true]
    exact Field.agree_eq (q := q) back

theorem keys_toJson_sublist (p : HttpRequest) :
    ((Payload.toJson p).map Prod.fst).Sublist (entryNames HttpRequest) := by
  have auth : ((Dict.field "basic_auth" (Json.ofFields <| Field.toJson BasicAuth.fields ·)
      p.auth).map Prod.fst).Sublist ["basic_auth"] := by
    cases p.auth <;> simp [Dict.field]
  refine List.Sublist.trans ?_ ((Field.keys_toJson_sublist fields p).append auth)
  rw [← List.map_append]
  exact List.Sublist.refl _

end HttpRequest

namespace InputRequest
variable {record : Dict Json} {p : InputRequest}

theorem defaulted_options (written : Written record p) :
    record.defaulted "options" [] (fun j => j.items? >>= (·.mapM InputOption.ofJson?)) =
      some p.options := by
  have found (j : Json) : record.get? "options" = some j ↔ ("options", j) ∈
      (if p.options.isEmpty then []
        else [("options", Json.array (p.options.map InputOption.toJson))]) :=
    StepKind.get?_extra .input written rfl (by decide) (by decide) j
  rw [Dict.defaulted]
  cases none_declared : p.options.isEmpty with
  | true =>
    rw [none_declared] at found
    have absent : record.get? "options" = none := Option.eq_none_iff_forall_ne_some.2 fun j h =>
      List.not_mem_nil ((found j).1 h)
    rw [absent, List.isEmpty_iff.1 none_declared]
  | false =>
    rw [none_declared] at found
    rw [(found _).2 List.mem_cons_self]
    exact mapM_map_of_inverse InputOption.ofJson?_toJson p.options

theorem readBack (written : Written record p) (expressible : Payload.Expressible p) :
    ∃ q : InputRequest, Payload.ofJson? record = some q ∧ (q == p) = !Payload.holdsNull p := by
  have foreign : ∀ e ∈ (if p.options.isEmpty then []
      else [("options", Json.array (p.options.map InputOption.toJson))]),
        e.1 ∉ Field.names fields := by
    have named : "options" ∉ Field.names fields := by decide
    split
    · exact List.forall_mem_nil _
    · exact List.forall_mem_singleton.2 named
  obtain ⟨q, read, back, -⟩ := Field.exists_ofJson? (StepKind.independent .input)
    (StepKind.get?_field .input written rfl foreign) expressible (StepKind.unset .input)
  refine ⟨{ q with options := p.options }, ?_, ?_⟩
  · change (Field.ofJson? fields record {} >>= fun q =>
      record.defaulted "options" [] (fun j => j.items? >>= (·.mapM InputOption.ofJson?)) >>=
        fun options => some { q with options }) = _
    rw [defaulted_options written, show Field.ofJson? fields record {} = some q from read]
    rfl
  · rw [beq_eq, beq_self_eq_true, Bool.and_true]
    exact Field.agree_eq (q := q) back

theorem keys_toJson_sublist (p : InputRequest) :
    ((Payload.toJson p).map Prod.fst).Sublist (entryNames InputRequest) := by
  have options : ((if p.options.isEmpty then []
      else [("options", Json.array (p.options.map InputOption.toJson))]).map Prod.fst).Sublist
        ["options"] := by
    split <;> simp
  refine List.Sublist.trans ?_ ((Field.keys_toJson_sublist fields p).append options)
  rw [← List.map_append]
  exact List.Sublist.refl _

end InputRequest

namespace StepKind
variable {kind : StepKind} {record : Dict Json} {p : kind.Settings}

theorem readBack (written : Written record p) (expressible : Payload.Expressible p) :
    ∃ q : kind.Settings, Payload.ofJson? record = some q ∧ (q == p) = !Payload.holdsNull p := by
  cases kind with
  | http => exact HttpRequest.readBack written expressible
  | input => exact InputRequest.readBack written expressible
  | sleep | email | transform | query | pipeline | function | container | message =>
    exact readBack_flat ⟨nofun, nofun⟩ written expressible

theorem keys_toJson_sublist (p : kind.Settings) :
    ((Payload.toJson p).map Prod.fst).Sublist (entryNames kind.Settings) := by
  cases kind with
  | http => exact HttpRequest.keys_toJson_sublist p
  | input => exact InputRequest.keys_toJson_sublist p
  | sleep | email | transform | query | pipeline | function | container | message =>
    exact Field.keys_toJson_sublist _ p

theorem nodup_entryNames (kind : StepKind) : ("kind" :: entryNames kind.Settings).Nodup := by
  cases kind <;> decide

end StepKind

namespace StepSpec

theorem ofJson?_object (fields : Dict Json) : ofJson? (.object fields) = (do
    let word ← fields.get? "kind" >>= Json.text?
    let kind ← (Keyword.parse StepKind word).toOption
    let settings ← Payload.ofJson? fields
    return ⟨kind, settings⟩) := rfl

/-- Settings that JSON can hold are read back as equal ones, unless one of them is null. -/
theorem exists_ofJson? (s : StepSpec) (expressible : Payload.Expressible s.settings) :
    ∃ t, ofJson? s.toJson = some t ∧ (t == s) = !Payload.holdsNull s.settings := by
  obtain ⟨kind, p⟩ := s
  have distinct : ((("kind", Keyword.toJson kind) :: Payload.toJson p).map Prod.fst).Nodup :=
    kind.nodup_entryNames.sublist ((StepKind.keys_toJson_sublist p).cons_cons "kind")
  have written : Written (Dict.ofEntries (("kind", Keyword.toJson kind) :: Payload.toJson p)) p := by
    intro name listed j
    have other : name ≠ "kind" := by
      rintro rfl
      exact (List.nodup_cons.1 kind.nodup_entryNames).1 listed
    rw [Dict.get?_ofEntries distinct, List.mem_cons, or_iff_right (by simp [other])]
  obtain ⟨q, read, same⟩ := StepKind.readBack written expressible
  refine ⟨⟨kind, q⟩, ?_, (beq_mk kind q p).trans same⟩
  have word : Keyword.parse StepKind (Keyword.spell kind) = .ok kind := by
    cases kind <;> rfl
  rw [toJson, Json.ofFields, ofJson?_object, (Dict.get?_ofEntries distinct).2 List.mem_cons_self]
  simp only [Keyword.toJson, Json.text?, Option.bind_eq_bind, Option.bind_some, word] at read ⊢
  simp only [Except.toOption, Option.bind_some, read]
  rfl

end StepSpec

namespace StepKind
variable {kind : StepKind} {p q : kind.Settings} {name : String} {v : Value}

/-- A setting of its own is found under its name. -/
theorem field?_own (f : Field kind.Settings) (hf : f ∈ Payload.fields) :
    field? (.own f.name) = some f := by
  rw [← kind.ofName?_name f hf]
  cases kind <;> rfl

/-- Storing a value leaves a field as it was, or sets it to what is read in the value. -/
theorem get_of_set (stored : Payload.set name v p = .ok q) (f : Field kind.Settings)
    (hf : f ∈ Payload.fields) :
    f.get q = f.get p ∨ ∃ d, f.type.convert name v = .ok d ∧ f.get q = some d := by
  have own := field?_own f hf
  rw [LawfulAddressing.set_eq] at stored
  cases hg : field? (P := kind.Settings) (Addressing.place kind.Settings name) with
  | none =>
    rw [hg] at stored
    cases stored
    exact .inl rfl
  | some g =>
    rw [hg] at stored
    cases read : g.type.convert name v with
    | error m => simp [read, Except.map] at stored
    | ok c =>
      obtain rfl : g.put c p = q := by simpa [read, Except.map] using stored
      by_cases here : Addressing.place kind.Settings name = .own f.name
      · obtain rfl : g = f := Option.some.inj (hg.symm.trans (here ▸ own))
        exact .inr ⟨c, read, (LawfulAddressing.lawful own).get_put c p⟩
      · exact .inl (LawfulAddressing.get_put here hg own c p)

end StepKind

namespace Payload.Expressible
variable {kind : StepKind} {p q : kind.Settings} {name : String} {v : Value}

theorem empty (kind : StepKind) : Payload.Expressible (Payload.empty : kind.Settings) := by
  intro f hf d hd
  rw [kind.unset f hf] at hd
  cases hd

theorem openBlock (h : Payload.Expressible p) (type : String) (labels : List String) :
    Payload.Expressible (Payload.openBlock type labels p) := by
  intro f hf d hd
  rw [LawfulAddressing.get_open (kind.field?_own f hf)] at hd
  exact h f hf d hd

/-- A value whose numbers are finite is stored as data that JSON can hold. -/
theorem set (h : Payload.Expressible p) (finite : v.isFinite = true)
    (stored : Payload.set name v p = .ok q) : Payload.Expressible q := by
  intro f hf d hd
  rcases kind.get_of_set stored f hf with kept | ⟨c, read, now⟩
  · exact h f hf d (kept ▸ hd)
  · obtain rfl := Option.some.inj (now.symm.trans hd)
    exact AttributeType.expressible_of_convert read finite

end Payload.Expressible

namespace StepSpec

/-- A call that changes settings. -/
inductive Call where
  | openBlock (type : String) (labels : List String)
  | set (name : String) (v : Value)

namespace Call

/-- The settings after a call; a value of the wrong type changes nothing. -/
def apply (s : StepSpec) : Call → StepSpec
  | .openBlock type labels => s.openBlock type labels
  | .set name v => (s.set name v).toOption.getD s

/-- Whether all numbers that a call passes are finite. -/
def isFinite : Call → Bool
  | .openBlock .. => true
  | .set _ v => v.isFinite

theorem expressible_apply {s : StepSpec} {c : Call} (h : Payload.Expressible s.settings)
    (finite : c.isFinite = true) : Payload.Expressible (c.apply s).settings := by
  cases c with
  | openBlock type labels => exact h.openBlock type labels
  | set name v =>
    obtain ⟨kind, p⟩ := s
    have kept (x : Except TypeMismatch kind.Settings)
        (stored : ∀ q, x = .ok q → Payload.Expressible q) :
        Payload.Expressible ((x.map (StepSpec.mk kind)).toOption.getD ⟨kind, p⟩).settings := by
      cases x with
      | error m => exact h
      | ok q => exact stored q rfl
    exact kept _ fun q stored => Payload.Expressible.set h finite stored

theorem expressible_foldl {s : StepSpec} {calls : List Call} (h : Payload.Expressible s.settings)
    (finite : ∀ c ∈ calls, c.isFinite = true) :
    Payload.Expressible (calls.foldl apply s).settings := by
  induction calls generalizing s with
  | nil => exact h
  | cons c cs ih =>
    obtain ⟨first, finite⟩ := List.forall_mem_cons.1 finite
    exact ih (expressible_apply h first) finite

end Call

/-- Settings that a run cannot tell apart. -/
structure Alike (s t : StepSpec) : Prop where
  kind : s.kind = t.kind
  inputs : Value.entriesEqual s.inputs t.inputs = true
  missing? : s.missing? = t.missing?
  check (location : Location) : s.check location = t.check location

theorem alike_of_beq {s t : StepSpec} (h : (s == t) = true) : s.Alike t := by
  obtain ⟨kind, p⟩ := s
  obtain ⟨kind', q⟩ := t
  by_cases same : kind = kind'
  · subst same
    rw [beq_mk] at h
    have alike := StepKind.alike h
    exact ⟨rfl, alike.inputs, alike.missing?, alike.check⟩
  · rw [show ((⟨kind, p⟩ : StepSpec) == ⟨kind', q⟩) = false from dif_neg same] at h
    cases h

/-- Whether a setting is null. -/
def holdsNull (s : StepSpec) : Bool := Payload.holdsNull s.settings

/-- What calls make of the settings of a new step. -/
def ofCalls (kind : StepKind) (calls : List Call) : StepSpec := calls.foldl Call.apply (ofKind kind)

/-- Whatever calls with finite numbers make of the settings of a new step is read back from its
JSON: as equal settings, which are alike for a run, unless one of them is null. -/
theorem ofJson?_toJson_calls (kind : StepKind) {calls : List Call}
    (finite : ∀ c ∈ calls, c.isFinite = true) :
    ∃ t, ofJson? (ofCalls kind calls).toJson = some t ∧
      (t == ofCalls kind calls) = !(ofCalls kind calls).holdsNull ∧
      ((ofCalls kind calls).holdsNull = false → t.Alike (ofCalls kind calls)) := by
  have start : Payload.Expressible (ofKind kind).settings := Payload.Expressible.empty kind
  obtain ⟨t, read, same⟩ := exists_ofJson? (ofCalls kind calls) (Call.expressible_foldl start finite)
  refine ⟨t, read, same, fun kept => alike_of_beq ?_⟩
  rw [same, show Payload.holdsNull (ofCalls kind calls).settings = false from kept]
  rfl

/-- A choice and a null inside a list are kept. -/
theorem ofJson?_toJson_calls_choice :
    (∀ c ∈ [Call.openBlock "option" ["yes"], .set "option.yes.label" (.string "Yes"),
      .set "notifier" (.list [.null])], c.isFinite = true) ∧
    ∃ t, ofJson? (ofCalls .input [.openBlock "option" ["yes"],
        .set "option.yes.label" (.string "Yes"), .set "notifier" (.list [.null])]).toJson = some t ∧
      (t == ofCalls .input [.openBlock "option" ["yes"],
        .set "option.yes.label" (.string "Yes"), .set "notifier" (.list [.null])]) = true := by
  have finite : ∀ c ∈ [Call.openBlock "option" ["yes"], .set "option.yes.label" (.string "Yes"),
      .set "notifier" (.list [.null])], c.isFinite = true := by decide
  obtain ⟨t, read, same, -⟩ := ofJson?_toJson_calls .input finite
  exact ⟨finite, t, read, same.trans (by decide)⟩

/-- A reference to a pipeline that is null is not read back: the engine does not receive it, and it is
missing where it was broken. -/
theorem ofJson?_toJson_null_pipeline :
    ∃ t, ofJson? (ofCalls .pipeline [.set "pipeline" .null]).toJson = some t ∧
      (t == ofCalls .pipeline [.set "pipeline" .null]) = false ∧
      (ofCalls .pipeline [.set "pipeline" .null]).inputs = [("pipeline", .null)] ∧ t.inputs = [] ∧
      (ofCalls .pipeline [.set "pipeline" .null]).missing? = none ∧ t.missing? = some "pipeline" ∧
      ∀ l, (ofCalls .pipeline [.set "pipeline" .null]).check l =
        [.invalidPipeline (l.child "pipeline")] ∧ t.check l = [] :=
  ⟨ofKind .pipeline, rfl, rfl, rfl, rfl, rfl, rfl, fun _ => ⟨rfl, rfl⟩⟩

end StepSpec
end PipelineResolution
