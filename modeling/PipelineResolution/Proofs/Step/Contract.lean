import Mathlib.Data.List.Nodup
import PipelineResolution.Proofs.Dict
import PipelineResolution.Proofs.Step.Validation

/-!
# What the engine may rely on

Each kind of step promises something about the inputs that the engine receives: the required ones are
there, and no rule of the kind is broken. A value may have been set when the step was decoded or
filled in at run time, in any form that its attribute takes. The promise is kept in either case, as
the engine receives the settings that were asked for what they miss and checked as a whole.
-/
namespace PipelineResolution
open Payload

namespace Dict
variable {α : Type u}

theorem ofEntries_concat (entries : List (String × α)) (key : String) (value : α) :
    ofEntries (entries ++ [(key, value)]) = (ofEntries entries).insert key value := by
  simp [ofEntries]

end Dict

namespace Field
variable {P : Type} {fields : List (Field P)} {f : Field P} {n : String}

theorem names_values_sublist (fields : List (Field P)) (p : P) :
    ((values fields p).map Prod.fst).Sublist (names fields) := by
  induction fields with
  | nil => exact .slnil
  | cons g fields ih =>
    rw [values, List.filterMap_cons]
    cases g.get p with
    | none => exact ih.cons _
    | some data => exact ih.cons_cons _

/-- Under the name of a field there is the data of the field, and nothing under another name. -/
theorem get?_values (distinct : (names fields).Nodup) (n : String) (p : P) :
    (Dict.ofEntries (values fields p)).get? n =
      (ofName? fields n).bind fun f => (f.get p).map f.type.toValue := by
  have found {g : Field P} (hg : g ∈ fields) (name : g.name = n) : ofName? fields n = some g := by
    obtain ⟨f, hf⟩ : ∃ f, ofName? fields n = some f :=
      Option.isSome_iff_exists.1 (List.find?_isSome.2 ⟨g, hg, by simpa using name⟩)
    rw [hf, List.inj_on_of_nodup_map distinct (mem_of_ofName? hf) hg
      ((name_of_ofName? hf).trans name.symm)]
  ext v
  rw [Dict.get?_ofEntries (distinct.sublist (names_values_sublist fields p)), values,
    List.mem_filterMap, Option.bind_eq_some_iff]
  constructor
  · rintro ⟨g, hg, held⟩
    obtain ⟨data, hdata, entry⟩ := Option.map_eq_some_iff.1 held
    obtain ⟨name, rfl⟩ := Prod.mk.inj entry
    exact ⟨g, found hg name, Option.map_eq_some_iff.2 ⟨data, hdata, rfl⟩⟩
  · rintro ⟨f, hf, held⟩
    obtain ⟨data, hdata, rfl⟩ := Option.map_eq_some_iff.1 held
    exact ⟨f, mem_of_ofName? hf, by rw [hdata, Option.map_some, name_of_ofName? hf]⟩

end Field

namespace Payload

theorem firstUnset_eq_none {settings : List (String × Bool)} :
    firstUnset settings = none ↔ ∀ setting ∈ settings, setting.2 = true := by
  simp [firstUnset]

/-- Settings that are handed on as they are, each under the name of its field. -/
class Plain (P : Type) [Payload P] : Prop where
  distinct : (Field.names (fields : List (Field P))).Nodup
  inputs_eq (p : P) : inputs p = Dict.ofEntries (Field.values fields p)

namespace Plain
variable {P : Type} [Payload P] [Plain P] {p : P} {f : Field P} {n : String}

theorem get?_inputs (hf : Field.ofName? fields n = some f) (p : P) :
    (inputs p).get? n = (f.get p).map f.type.toValue := by
  rw [inputs_eq, Field.get?_values distinct, hf, Option.bind_some]

/-- The engine receives the data of a field that is set. -/
theorem received (hf : Field.ofName? fields n = some f) (given : (f.get p).isSome) :
    ∃ data, f.get p = some data ∧ (inputs p).get? n = some (f.type.toValue data) := by
  obtain ⟨data, h⟩ := Option.isSome_iff_exists.1 given
  exact ⟨data, h, by rw [get?_inputs hf, h, Option.map_some]⟩

end Plain

instance : Plain Sleep := ⟨by decide, fun _ => rfl⟩
instance : Plain Email := ⟨by decide, fun _ => rfl⟩
instance : Plain SqlQuery := ⟨by decide, fun _ => rfl⟩
instance : Plain PipelineCall := ⟨by decide, fun _ => rfl⟩
instance : Plain FunctionCall := ⟨by decide, fun _ => rfl⟩
instance : Plain Container := ⟨by decide, fun _ => rfl⟩
instance : Plain Message := ⟨by decide, fun _ => rfl⟩

end Payload

@[mk_iff]
structure HttpRequest.Contract (inputs : Dict Value) : Prop where
  url : ∃ url, inputs.get? "url" = some (.string url)
  method : ∃ method : HttpMethod, inputs.get? "method" = some (.string (Keyword.spell method))
  timeout : ∀ v, inputs.get? "request_timeout_ms" = some v → ∃ n : Int, 0 ≤ n ∧ v = .ofInt n

@[mk_iff]
structure Sleep.Contract (inputs : Dict Value) : Prop where
  duration : ∃ v milliseconds, inputs.get? "duration" = some v ∧
    Duration.ofValue v = .ok milliseconds

@[mk_iff]
structure Email.Contract (inputs : Dict Value) : Prop where
  recipients : ∃ addresses, addresses ≠ [] ∧
    inputs.get? "to" = some (.list (addresses.map .string))
  host : ∃ host, inputs.get? "host" = some (.string host)
  port : ∀ v, inputs.get? "port" = some v → ∃ n : Int, 1 ≤ n ∧ n ≤ 65535 ∧ v = .ofInt n

@[mk_iff]
structure Transform.Contract (inputs : Dict Value) : Prop where
  value : ∃ v, inputs.get? "value" = some v

@[mk_iff]
structure SqlQuery.Contract (inputs : Dict Value) : Prop where
  sql : ∃ sql, Text.trim sql ≠ "" ∧ inputs.get? "sql" = some (.string sql)
  database : ∃ database, inputs.get? "database" = some (.string database)

/-- A pipeline is named by a text or by a map with its name. -/
@[mk_iff]
structure PipelineCall.Contract (inputs : Dict Value) : Prop where
  pipeline : ∃ name, inputs.get? "pipeline" = some (.string name) ∨
    ∃ entries, inputs.get? "pipeline" = some (.map entries) ∧
      Dict.get? entries "name" = some (.string name)

@[mk_iff]
structure FunctionCall.Contract (inputs : Dict Value) : Prop where
  source : ∃ source, inputs.get? "source" = some (.string source)

/-- A container has one of an image and a build source, never both. -/
@[mk_iff]
structure Container.Contract (inputs : Dict Value) : Prop where
  origin : (∃ image, inputs.get? "image" = some (.string image) ∧ inputs.get? "source" = none) ∨
    ∃ source, inputs.get? "source" = some (.string source) ∧ inputs.get? "image" = none
  swappiness : ∀ v, inputs.get? "memory_swappiness" = some v →
    ∃ n : Int, 0 ≤ n ∧ n ≤ 100 ∧ v = .ofInt n

/-- Only a text is asked for without choices, and a choice has no style or a known one. -/
@[mk_iff]
structure InputRequest.Contract (inputs : Dict Value) : Prop where
  type : ∃ type : InputType, inputs.get? "type" = some (.string (Keyword.spell type)) ∧
    (type ≠ .text → ∃ options, options ≠ [] ∧ inputs.get? "options" = some (.list options))
  styles : ∀ v, inputs.get? "options" = some v → ∃ options, v = .list options ∧
    ∀ option ∈ options, ∀ w, option.get? "style" = some w →
      ∃ style : OptionStyle, w = .string (Keyword.spell style)

@[mk_iff]
structure Message.Contract (inputs : Dict Value) : Prop where
  text : ∃ text, inputs.get? "text" = some (.string text)

/-- What the engine may rely on in the inputs of a step of a kind. -/
def StepKind.Contract : StepKind → Dict Value → Prop
  | .http => HttpRequest.Contract
  | .sleep => Sleep.Contract
  | .email => Email.Contract
  | .transform => Transform.Contract
  | .query => SqlQuery.Contract
  | .pipeline => PipelineCall.Contract
  | .function => FunctionCall.Contract
  | .container => Container.Contract
  | .input => InputRequest.Contract
  | .message => Message.Contract

/-- The promise of a kind is not about the timeout, which any step may have. -/
theorem StepKind.contract_insert {kind : StepKind} {inputs : Dict Value} (v : Value)
    (h : kind.Contract inputs) : kind.Contract (inputs.insert "timeout" v) := by
  cases kind <;>
    simpa [Contract, HttpRequest.contract_iff, Sleep.contract_iff, Email.contract_iff,
      Transform.contract_iff, SqlQuery.contract_iff, PipelineCall.contract_iff,
      FunctionCall.contract_iff, Container.contract_iff, InputRequest.contract_iff,
      Message.contract_iff, Dict.get?_insert] using h

section
variable {l : Location}

namespace HttpRequest
variable {p : HttpRequest}

theorem check_eq_false : (Payload.check p l).hasErrors = false ↔
    (p.method.isSome → ∃ method, Keyword.parse HttpMethod p.effectiveMethod = .ok method) ∧
      ∀ n, p.timeout = some n → 0 ≤ n := by
  simp only [Payload.check, check, Diagnostics.hasErrors_append, Bool.or_eq_false_iff]
  refine and_congr ?_ ?_
  · cases p.method with
    | none => simp [Diagnostics.hasErrors]
    | some word => cases Keyword.parse HttpMethod p.effectiveMethod <;> simp [Diagnostics.hasErrors]
  · cases p.timeout with
    | none => simp [Diagnostics.hasErrors]
    | some n =>
      by_cases negative : n < 0
      · simp [negative, Diagnostics.hasErrors]
      · simp [negative, Diagnostics.hasErrors, Int.not_lt.1 negative]

/-- The method stands in the place of the one that is written. -/
theorem get?_inputs {n : String} (other : n ≠ "basic_auth") (p : HttpRequest) :
    (inputs p).get? n = if n = "method" then some (.string p.effectiveMethod)
      else (Dict.ofEntries (Field.values fields p)).get? n := by
  dsimp only [inputs]
  cases p.auth with
  | none =>
    rw [Option.map_none, Option.toList_none, List.append_nil, Dict.ofEntries_concat, Dict.get?_insert]
    simp [eq_comm]
  | some auth =>
    rw [Option.map_some, Option.toList_some, Dict.ofEntries_concat, Dict.ofEntries_concat,
      Dict.get?_insert, Dict.get?_insert, if_neg other.symm]
    simp [eq_comm]

theorem contract_inputs (complete : missing? p = none)
    (kept : (Payload.check p l).hasErrors = false) : Contract (inputs p) := by
  obtain ⟨known, timeout⟩ := check_eq_false.1 kept
  have held {n : String} {f : Field HttpRequest} (hf : Field.ofName? fields n = some f)
      (own : n ≠ "basic_auth") (other : n ≠ "method") :
      (inputs p).get? n = (f.get p).map f.type.toValue := by
    rw [get?_inputs own, if_neg other, Field.get?_values (by decide), hf, Option.bind_some]
  constructor
  · have url : p.url.isSome := by simpa [missing?, firstUnset_eq_none] using complete
    obtain ⟨url, hurl⟩ := Option.isSome_iff_exists.1 url
    have found := held (n := "url") rfl (by decide) (by decide)
    exact ⟨url, found.trans (congrArg _ hurl)⟩
  · rw [get?_inputs (by decide), if_pos rfl]
    by_cases written : p.method.isSome
    · obtain ⟨method, hmethod⟩ := known written
      exact ⟨method, by rw [Keyword.spell_of_parse hmethod]⟩
    · refine ⟨.get, ?_⟩
      rw [effectiveMethod, Option.not_isSome_iff_eq_none.1 written]
      rfl
  · intro v hv
    have found := held (n := "request_timeout_ms") rfl (by decide) (by decide)
    obtain ⟨n, hn, rfl⟩ := Option.map_eq_some_iff.1 (found.symm.trans hv)
    exact ⟨n, timeout n hn, rfl⟩

end HttpRequest

theorem Sleep.check_eq_false {p : Sleep} : (check p l).hasErrors = false ↔
    ∀ v, p.duration = some v → ∃ milliseconds, Duration.ofValue v = .ok milliseconds := by
  dsimp only [Payload.check]
  cases p.duration with
  | none => simp [Diagnostics.hasErrors]
  | some v => cases h : Duration.ofValue v <;> simp [h, Diagnostics.hasErrors]

theorem Sleep.contract_inputs {p : Sleep} (complete : missing? p = none)
    (kept : (check p l).hasErrors = false) : Contract (inputs p) := by
  have given : p.duration.isSome := by simpa [missing?, firstUnset_eq_none] using complete
  obtain ⟨v, hv, found⟩ := Plain.received (p := p) (n := "duration") rfl given
  obtain ⟨milliseconds, h⟩ := check_eq_false.1 kept v hv
  exact ⟨v, milliseconds, found, h⟩

namespace Email
variable {p : Email}

theorem check_eq_false : (Payload.check p l).hasErrors = false ↔
    (∀ n, p.port = some n → 1 ≤ n ∧ n ≤ 65535) ∧ p.recipients ≠ some [] := by
  simp only [Payload.check, check, Diagnostics.hasErrors_append, Bool.or_eq_false_iff]
  refine and_congr ?_ ?_
  · cases p.port with
    | none => simp [Diagnostics.hasErrors]
    | some n => by_cases inside : 1 ≤ n ∧ n ≤ 65535 <;> simp [inside, Diagnostics.hasErrors]
  · rcases p.recipients with _ | (_ | ⟨address, addresses⟩) <;> simp [Diagnostics.hasErrors]

theorem contract_inputs (complete : missing? p = none)
    (kept : (Payload.check p l).hasErrors = false) : Contract (inputs p) := by
  obtain ⟨port, given⟩ := check_eq_false.1 kept
  obtain ⟨recipients, host⟩ : p.recipients.isSome ∧ p.host.isSome := by
    simpa [missing?, firstUnset_eq_none] using complete
  constructor
  · obtain ⟨addresses, h, found⟩ := Plain.received (p := p) (n := "to") rfl recipients
    refine ⟨addresses, ?_, found⟩
    rintro rfl
    exact given h
  · obtain ⟨host, -, found⟩ := Plain.received (p := p) (n := "host") rfl host
    exact ⟨host, found⟩
  · intro v hv
    rw [Plain.get?_inputs (n := "port") rfl] at hv
    obtain ⟨n, hn, rfl⟩ := Option.map_eq_some_iff.1 hv
    exact ⟨n, (port n hn).1, (port n hn).2, rfl⟩

end Email

theorem SqlQuery.check_eq_false {p : SqlQuery} :
    (check p l).hasErrors = false ↔ ∀ sql, p.sql = some sql → Text.trim sql ≠ "" := by
  dsimp only [Payload.check]
  cases p.sql with
  | none => simp [Diagnostics.hasErrors]
  | some sql => by_cases blank : Text.trim sql = "" <;> simp [blank, Diagnostics.hasErrors]

theorem SqlQuery.contract_inputs {p : SqlQuery} (complete : missing? p = none)
    (kept : (check p l).hasErrors = false) : Contract (inputs p) := by
  obtain ⟨sql, database⟩ : p.sql.isSome ∧ p.database.isSome := by
    simpa [missing?, firstUnset_eq_none] using complete
  constructor
  · obtain ⟨sql, h, found⟩ := Plain.received (p := p) (n := "sql") rfl sql
    exact ⟨sql, check_eq_false.1 kept sql h, found⟩
  · obtain ⟨database, -, found⟩ := Plain.received (p := p) (n := "database") rfl database
    exact ⟨database, found⟩

theorem Value.pipelineName?_eq_some {v : Value} {name : String} : v.pipelineName? = some name ↔
    v = .string name ∨
      ∃ entries, v = .map entries ∧ Dict.get? entries "name" = some (.string name) := by
  cases v with
  | map entries =>
    cases found : Dict.get? entries "name" with
    | none => simp [pipelineName?, get?, map?, found]
    | some w => cases w <;> simp [pipelineName?, get?, map?, found, text?]
  | _ => simp [pipelineName?, get?, map?]

theorem PipelineCall.check_eq_false {p : PipelineCall} : (check p l).hasErrors = false ↔
    ∀ v, p.pipeline = some v → ∃ name, v.pipelineName? = some name := by
  dsimp only [Payload.check]
  cases p.pipeline with
  | none => simp [Diagnostics.hasErrors]
  | some v =>
    cases h : v.pipelineName? <;> simp [h, Diagnostics.hasErrors, Diagnostic.invalidPipeline]

theorem PipelineCall.contract_inputs {p : PipelineCall} (complete : missing? p = none)
    (kept : (check p l).hasErrors = false) : Contract (inputs p) := by
  have given : p.pipeline.isSome := by simpa [missing?, firstUnset_eq_none] using complete
  obtain ⟨v, hv, found⟩ := Plain.received (p := p) (n := "pipeline") rfl given
  obtain ⟨name, named⟩ := check_eq_false.1 kept v hv
  rcases Value.pipelineName?_eq_some.1 named with rfl | ⟨entries, rfl, hname⟩
  · exact ⟨name, .inl found⟩
  · exact ⟨name, .inr ⟨entries, found, hname⟩⟩

theorem FunctionCall.contract_inputs {p : FunctionCall} (complete : missing? p = none) :
    Contract (inputs p) := by
  have given : p.source.isSome := by simpa [missing?, firstUnset_eq_none] using complete
  obtain ⟨source, -, found⟩ := Plain.received (p := p) (n := "source") rfl given
  exact ⟨source, found⟩

theorem Message.contract_inputs {p : Message} (complete : missing? p = none) :
    Contract (inputs p) := by
  have given : p.text.isSome := by simpa [missing?, firstUnset_eq_none] using complete
  obtain ⟨text, -, found⟩ := Plain.received (p := p) (n := "text") rfl given
  exact ⟨text, found⟩

namespace Container
variable {p : Container}

theorem check_eq_false : (Payload.check p l).hasErrors = false ↔
    ¬(p.image.isSome ∧ p.source.isSome) ∧ ∀ n, p.memorySwappiness = some n → 0 ≤ n ∧ n ≤ 100 := by
  simp only [Payload.check, check, Diagnostics.hasErrors_append, Bool.or_eq_false_iff]
  refine and_congr ?_ ?_
  · cases p.image <;> cases p.source <;> simp [Diagnostics.hasErrors]
  · cases p.memorySwappiness with
    | none => simp [Diagnostics.hasErrors]
    | some n => by_cases inside : 0 ≤ n ∧ n ≤ 100 <;> simp [inside, Diagnostics.hasErrors]

theorem contract_inputs (complete : missing? p = none)
    (kept : (Payload.check p l).hasErrors = false) : Contract (inputs p) := by
  obtain ⟨apart, swappiness⟩ := check_eq_false.1 kept
  have given : p.image.isSome ∨ p.source.isSome := by
    simpa [missing?, firstUnset_eq_none] using complete
  have image : (inputs p).get? "image" = p.image.map .string := by
    rw [Plain.get?_inputs (n := "image") rfl]
    rfl
  have source : (inputs p).get? "source" = p.source.map .string := by
    rw [Plain.get?_inputs (n := "source") rfl]
    rfl
  constructor
  · rw [image, source]
    cases himage : p.image with
    | some image =>
      have none : p.source = none := by simpa [himage] using apart
      exact .inl ⟨image, rfl, by rw [none, Option.map_none]⟩
    | none =>
      obtain ⟨source, h⟩ : ∃ source, p.source = some source := by
        simpa [himage, Option.isSome_iff_exists] using given
      exact .inr ⟨source, by rw [h, Option.map_some], rfl⟩
  · intro v hv
    rw [Plain.get?_inputs (n := "memory_swappiness") rfl] at hv
    obtain ⟨n, hn, rfl⟩ := Option.map_eq_some_iff.1 hv
    exact ⟨n, (swappiness n hn).1, (swappiness n hn).2, rfl⟩

end Container

namespace InputRequest
variable {p : InputRequest}

/-- The choices are listed beside the fields, unless there are none. -/
theorem get?_inputs (n : String) (p : InputRequest) : (inputs p).get? n =
    if n = "options" ∧ p.options ≠ [] then some (.list (p.options.map InputOption.toValue))
    else (Dict.ofEntries (Field.values fields p)).get? n := by
  dsimp only [inputs]
  cases p.options with
  | nil => simp
  | cons o os => simp [Dict.ofEntries_concat, Dict.get?_insert, eq_comm]

theorem get?_style (o : InputOption) : o.toValue.get? "style" = o.style.map .string := by
  let value : Field InputOption :=
    ⟨"value", .text, fun o => some o.value, fun s o => { o with value := s }⟩
  have distinct : (Field.names (value :: InputOption.fields)).Nodup := by decide
  exact (Field.get?_values distinct "style" o).trans rfl

theorem contract_inputs (complete : missing? p = none)
    (kept : (Payload.check p l).hasErrors = false) : Contract (inputs p) := by
  obtain ⟨known, styles⟩ := check_eq_false.1 kept
  have given : p.type.isSome := by simpa [missing?, firstUnset_eq_none] using complete
  have distinct : (Field.names fields).Nodup := by decide
  constructor
  · obtain ⟨word, hword⟩ := Option.isSome_iff_exists.1 given
    obtain ⟨type, htype, choices⟩ := known word hword
    refine ⟨type, ?_, fun other => ?_⟩
    · rw [get?_inputs, if_neg (by simp), Field.get?_values distinct, Keyword.spell_of_parse htype]
      exact congrArg (Option.map Value.string) hword
    · have chosen : p.options ≠ [] := fun none => other (choices none)
      refine ⟨p.options.map InputOption.toValue, by simpa using chosen, ?_⟩
      rw [get?_inputs, if_pos ⟨rfl, chosen⟩]
  · intro v hv
    rw [get?_inputs] at hv
    by_cases chosen : p.options = []
    · rw [if_neg (fun h => h.2 chosen), Field.get?_values distinct] at hv
      cases hv
    · rw [if_pos ⟨rfl, chosen⟩] at hv
      refine ⟨_, (Option.some.inj hv).symm, fun option hoption w hw => ?_⟩
      obtain ⟨o, ho, rfl⟩ := List.mem_map.1 hoption
      rw [get?_style] at hw
      obtain ⟨word, hword, rfl⟩ := Option.map_eq_some_iff.1 hw
      obtain ⟨style, hstyle⟩ := styles o ho word hword
      exact ⟨style, by rw [Keyword.spell_of_parse hstyle]⟩

end InputRequest

end

/-- Settings that miss nothing and break no rule keep the promise of their kind. -/
theorem StepSpec.contract_inputs {q : StepSpec} {l : Location} (complete : q.missing? = none)
    (kept : (q.check l).hasErrors = false) : q.kind.Contract q.inputs := by
  obtain ⟨kind, p⟩ := q
  cases kind with
  | http => exact HttpRequest.contract_inputs complete kept
  | sleep => exact Sleep.contract_inputs complete kept
  | email => exact Email.contract_inputs complete kept
  | transform => exact ⟨_, rfl⟩
  | query => exact SqlQuery.contract_inputs complete kept
  | pipeline => exact PipelineCall.contract_inputs complete kept
  | function => exact FunctionCall.contract_inputs complete
  | container => exact Container.contract_inputs complete kept
  | input => exact InputRequest.contract_inputs complete kept
  | message => exact Message.contract_inputs complete

namespace Step
variable {s : Step} {env : Environment} {inputs : Dict Value}

/-- What is received comes from complete settings of the step's kind that break no rule. -/
theorem exists_of_inputs (h : s.inputs env = .ok inputs) :
    ∃ (q : StepSpec) (timeout : Option Value), q.kind = s.kind ∧ q.missing? = none ∧
      (q.check s.location).hasErrors = false ∧
        inputs = timeout.elim q.inputs (q.inputs.insert "timeout") := by
  obtain ⟨f, filled, h⟩ := bind_eq_ok.1 h
  split at h
  · cases h
  · rename_i quiet
    obtain ⟨-, settled, -⟩ := settled_of_foldlM filled (by simpa using quiet)
    have kind : f.spec.kind = s.kind := by
      rw [settled, StepSpec.kind_settle]
      rfl
    split at h
    · cases h
    · rename_i complete
      dsimp only at h
      split at h
      · cases h
      · rename_i kept
        refine ⟨f.spec, f.timeout, kind, complete, by simpa using kept, ?_⟩
        cases timeout : f.timeout with
        | none =>
          rw [timeout] at h
          exact (Except.ok.inj h).symm
        | some v =>
          rw [timeout] at h
          exact (Except.ok.inj h).symm

/-- Whatever is bound at run time, the inputs of a step keep the promise of its kind. -/
theorem contract_of_inputs (h : s.inputs env = .ok inputs) : s.kind.Contract inputs := by
  obtain ⟨q, timeout, kind, complete, kept, rfl⟩ := exists_of_inputs h
  have promise : s.kind.Contract q.inputs := kind ▸ StepSpec.contract_inputs complete kept
  cases timeout with
  | none => exact promise
  | some v => exact StepKind.contract_insert v promise

/-- A request whose method waits for run time. -/
def requesting : Step :=
  { ofKind .http "h" "p" with
    spec := ⟨.http, { url := some "u", timeout := some 250 }⟩
    deferred := [("method", .term (.access (.variable "param") [.member "verb"]))] }

theorem contract_of_inputs_requesting : ∃ inputs,
    requesting.inputs ⟨[("param", .map [("verb", .string "POST")])]⟩ = .ok inputs ∧
      inputs.get? "method" = some (.string "post") ∧ StepKind.http.Contract inputs := by
  have received : requesting.inputs ⟨[("param", .map [("verb", .string "POST")])]⟩ =
      .ok [("method", .string "post"), ("request_timeout_ms", .ofInt 250), ("url", .string "u")] :=
    rfl
  exact ⟨_, received, rfl, contract_of_inputs received⟩

end Step

end PipelineResolution
