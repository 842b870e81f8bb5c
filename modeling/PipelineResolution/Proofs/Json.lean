import Mathlib.Algebra.Ring.Int.Defs
import PipelineResolution.Diagnostic.Json
import PipelineResolution.Execution.Output
import PipelineResolution.Proofs.Step.Equality
import PipelineResolution.Proofs.Step.ReadBack

/-!
# Outputs and diagnostics in JSON

A record is written field by field, and each field is found again under its name. Reading makes up
for what is left out: an absent location, an empty list of errors. So outputs and batches of
diagnostics are read back from their JSON, as values are.
-/
namespace PipelineResolution

/-- Equal values are written alike. -/
theorem Value.numberToJson_of_equals {n m : Number} (h : n.equals m = true) :
    numberToJson n = numberToJson m := by
  rcases Number.toInt?_of_equals h with rfl | ⟨hn, hm⟩
  · rfl
  · unfold numberToJson wordOf
    rw [hn, hm]
    rfl

mutual
theorem Value.toJson_of_equals : ∀ v w : Value, v.equals w = true → v.toJson = w.toJson
  | .null, w, h => by
    cases w <;> cases h
    rfl
  | .bool b, w, h => by
    cases w <;> try cases h
    rw [beq_iff_eq.1 h]
  | .number n, w, h => by
    cases w <;> try cases h
    exact numberToJson_of_equals h
  | .string s, w, h => by
    cases w <;> try cases h
    rw [beq_iff_eq.1 h]
  | .list vs, w, h => by
    cases w <;> try cases h
    exact congrArg Json.array (listToJson_of_equals vs _ h)
  | .map vs, w, h => by
    cases w <;> try cases h
    exact congrArg Json.object (entriesToJson_of_equals vs _ h)

theorem Value.listToJson_of_equals : ∀ vs ws : List Value, listEquals vs ws = true →
    listToJson vs = listToJson ws
  | [], [], _ => rfl
  | [], _ :: _, h | _ :: _, [], h => nomatch h
  | v :: vs, w :: ws, h => by
    obtain ⟨first, rest⟩ := Bool.and_eq_true_iff.1 h
    rw [listToJson, listToJson, toJson_of_equals v w first, listToJson_of_equals vs ws rest]

theorem Value.entriesToJson_of_equals : ∀ vs ws : List (String × Value),
    entriesEqual vs ws = true → entriesToJson vs = entriesToJson ws
  | [], [], _ => rfl
  | [], _ :: _, h | _ :: _, [], h => nomatch h
  | (k, v) :: vs, (l, w) :: ws, h => by
    obtain ⟨first, rest⟩ := Bool.and_eq_true_iff.1 h
    obtain ⟨key, first⟩ := Bool.and_eq_true_iff.1 first
    rw [entriesToJson, entriesToJson, beq_iff_eq.1 key, toJson_of_equals v w first,
      entriesToJson_of_equals vs ws rest]
end

namespace Dict
variable {entries : Dict Json} {item : Json} {value : α} {decode : Json → Option α}

/-- A field is found under its name, in whatever order the fields were given. -/
theorem required_ofEntries (distinct : (entries.map Prod.fst).Nodup) (name : String)
    (read : decode item = some value) (mem : (name, item) ∈ entries) :
    (ofEntries entries).required name decode = some value := by
  rw [required, (get?_ofEntries distinct).2 mem, ← read]
  rfl

theorem defaulted_ofEntries (distinct : (entries.map Prod.fst).Nodup) (name : String) (default : α)
    (read : decode item = some value) (mem : (name, item) ∈ entries) :
    (ofEntries entries).defaulted name default decode = some value := by
  rw [defaulted, (get?_ofEntries distinct).2 mem, ← read]

theorem defaulted_ofEntries_of_notMem (distinct : (entries.map Prod.fst).Nodup) (name : String)
    (default : α) (decode : Json → Option α) (absent : name ∉ entries.map Prod.fst) :
    (ofEntries entries).defaulted name default decode = some default := by
  have none : (ofEntries entries).get? name = none := by
    rw [Option.eq_none_iff_forall_ne_some]
    intro item found
    exact absent (List.mem_map_of_mem ((get?_ofEntries distinct).1 found))
  rw [defaulted, none]

end Dict

theorem Json.text?_string (s : String) : text? (.string s) = some s := rfl

theorem shortWord?_natCast {n : Nat} (short : n < Word.count 16) :
    shortWord? (.int n) = some n := by
  have bounds : 0 ≤ (n : Int) ∧ (n : Int) < Word.count 16 :=
    ⟨Int.natCast_nonneg n, Int.ofNat_lt.2 short⟩
  rw [shortWord?, if_pos bounds, Int.toNat_natCast]

-- The reads below are given one by one: evaluating a look-up of a literal record would compare its
-- names, and the bound of a status, in the kernel.
theorem ErrorDetail.ofJson?_toJson {e : ErrorDetail} (short : e.status < Word.count 16) :
    ofJson? e.toJson = some e := by
  have distinct : ([("instance", Json.string e.instanceId), ("detail", .string e.detail),
    ("type", .string e.type), ("title", .string e.title), ("status", .int e.status)].map
      Prod.fst).Nodup := by simp
  have text (name s) := Dict.required_ofEntries distinct name (Json.text?_string s)
  have status := Dict.required_ofEntries distinct "status" (shortWord?_natCast short) (by simp)
  simp only [ofJson?, toJson, Json.ofFields, Json.record?, Option.bind_eq_bind,
    Option.bind_eq_some_iff]
  exact ⟨_, rfl, _, text _ _ (by simp), _, text _ _ (by simp), _, text _ _ (by simp), _,
    text _ _ (by simp), _, status, rfl⟩

theorem StepError.ofJson?_toJson {e : StepError} (short : e.error.status < Word.count 16) :
    ofJson? e.toJson = some e := by
  have distinct : ([("pipeline_execution_id", Json.string e.pipelineExecution),
    ("step_execution_id", .string e.stepExecution), ("pipeline", .string e.pipeline),
    ("step", .string e.step), ("error", e.error.toJson)].map Prod.fst).Nodup := by simp
  have text (name s) := Dict.required_ofEntries distinct name (Json.text?_string s)
  have error :=
    Dict.required_ofEntries distinct "error" (ErrorDetail.ofJson?_toJson short) (by simp)
  simp only [ofJson?, toJson, Json.ofFields, Json.record?, Option.bind_eq_bind,
    Option.bind_eq_some_iff]
  exact ⟨_, rfl, _, text _ _ (by simp), _, text _ _ (by simp), _, text _ _ (by simp), _,
    text _ _ (by simp), _, error, rfl⟩

namespace Output

/-- Equality of outputs, where numbers are compared numerically. -/
def equals (a b : Output) : Bool :=
  a.status == b.status && Value.entriesEqual a.data b.data && a.errors == b.errors

/-- Outputs that JSON can hold: the numbers in their data are finite, and the statuses of their
errors are words of 16 bits. -/
structure Expressible (o : Output) : Prop where
  data : Value.entriesAreFinite o.data = true
  errors : ∀ e ∈ o.errors, e.error.status < Word.count 16

theorem data?_object (fields : List (String × Json)) :
    data? (.object fields) = some (Value.entriesOfJson fields) := rfl

theorem errors?_map_toJson {errors : List StepError}
    (short : ∀ e ∈ errors, e.error.status < Word.count 16) :
    errors? (.array (errors.map StepError.toJson)) = some errors :=
  mapM_map_of_forall_mem fun e he => StepError.ofJson?_toJson (short e he)

/-- The status and the errors are read back as they are, and the data through their JSON. An empty
list of errors is not written: its absence reads as one. -/
theorem ofJson?_toJson {o : Output} (short : ∀ e ∈ o.errors, e.error.status < Word.count 16) :
    ofJson? o.toJson =
      some { o with data := Value.entriesOfJson (Value.entriesToJson o.data) } := by
  obtain ⟨status, data, _ | ⟨e, errors⟩⟩ := o
  · have distinct : ([("status", Json.string status),
      ("data", .object (Value.entriesToJson data))].map Prod.fst).Nodup := by simp
    have status :=
      Dict.defaulted_ofEntries distinct "status" "" (Json.text?_string status) (by simp)
    have data := Dict.defaulted_ofEntries distinct "data" []
      (data?_object (Value.entriesToJson data)) (by simp)
    have errors := Dict.defaulted_ofEntries_of_notMem distinct "errors" [] errors? (by simp)
    simp only [ofJson?, toJson, Json.ofFields, Json.record?, Option.bind_eq_bind,
      Option.bind_eq_some_iff]
    exact ⟨_, rfl, _, status, _, data, _, errors, rfl⟩
  · have distinct : ([("status", Json.string status),
      ("data", .object (Value.entriesToJson data)),
      ("errors", .array ((e :: errors).map StepError.toJson))].map Prod.fst).Nodup := by simp
    have status :=
      Dict.defaulted_ofEntries distinct "status" "" (Json.text?_string status) (by simp)
    have data := Dict.defaulted_ofEntries distinct "data" []
      (data?_object (Value.entriesToJson data)) (by simp)
    have errors :=
      Dict.defaulted_ofEntries distinct "errors" [] (errors?_map_toJson short) (by simp)
    simp only [ofJson?, toJson, Json.ofFields, Json.record?, Option.bind_eq_bind,
      Option.bind_eq_some_iff]
    exact ⟨_, rfl, _, status, _, data, _, errors, rfl⟩

/-- An output is read back from its JSON as an equal one. -/
theorem exists_ofJson?_toJson {o : Output} (h : o.Expressible) :
    ∃ o', ofJson? o.toJson = some o' ∧ o'.equals o = true := by
  refine ⟨_, ofJson?_toJson h.errors, ?_⟩
  simp only [equals, beq_self_eq_true, Bool.true_and, Bool.and_true]
  exact Value.entriesEqual_entriesOfJson o.data h.data

end Output

theorem Severity.ofJson?_toJson (s : Severity) : ofJson? s.toJson = some s := by
  cases s <;> rfl

theorem Location.ofJson?_toJson (l : Location) : ofJson? l.toJson = some l := by
  obtain ⟨_ | file, path⟩ := l <;> rfl

theorem DiagnosticKind.ofJson?_toJson (k : DiagnosticKind) : ofJson? k.toJson = some k := by
  cases k <;> rfl

theorem Diagnostic.ofJson?_toJson (d : Diagnostic) : ofJson? d.toJson = some d := by
  obtain ⟨severity, summary, detail, _ | subject, kind⟩ := d
  · change (Severity.ofJson? severity.toJson >>= fun severity =>
      DiagnosticKind.ofJson? kind.toJson >>= fun kind =>
        some (mk severity summary detail none kind)) = _
    rw [Severity.ofJson?_toJson, DiagnosticKind.ofJson?_toJson]
    rfl
  · change (Severity.ofJson? severity.toJson >>= fun severity =>
      ((Location.ofJson? subject.toJson).map some) >>= fun subject =>
        DiagnosticKind.ofJson? kind.toJson >>= fun kind =>
          some (mk severity summary detail subject kind)) = _
    rw [Severity.ofJson?_toJson, Location.ofJson?_toJson, DiagnosticKind.ofJson?_toJson]
    rfl

theorem Diagnostics.ofJson?_toJson (ds : Diagnostics) : ofJson? ds.toJson = some ds :=
  mapM_map_of_inverse Diagnostic.ofJson?_toJson ds

/-- Values with finite numbers, outputs with such data and batches of diagnostics are read back from
their JSON as equal ones. What a value is read back as has the same JSON. -/
theorem json_reads_back :
    (∀ v : Value, v.isFinite = true →
      (Value.ofJson v.toJson).equals v = true ∧ (Value.ofJson v.toJson).toJson = v.toJson) ∧
    (∀ o : Output, o.Expressible →
      ∃ o', Output.ofJson? o.toJson = some o' ∧ o'.equals o = true) ∧
    ∀ ds : Diagnostics, Diagnostics.ofJson? ds.toJson = some ds := by
  refine ⟨fun v finite => ?_, fun o => Output.exists_ofJson?_toJson, Diagnostics.ofJson?_toJson⟩
  have same := Value.equals_ofJson_toJson v finite
  exact ⟨same, Value.toJson_of_equals _ _ same⟩

/-- A number just above the signed words, and an output with an error. -/
theorem json_reads_back_wide :
    ((Value.list [.ofInt (2 ^ 63), .map [("k", .null)]]).isFinite = true ∧
      (Value.ofJson (Value.list [.ofInt (2 ^ 63), .map [("k", .null)]]).toJson).equals
        (.list [.ofInt (2 ^ 63), .map [("k", .null)]]) = true) ∧
    ∃ o : Output, o.data = [("code", .ofInt (-1))] ∧
      o.errors.map (·.error) = [⟨"err_1", "refused", "internal", "Internal", 500⟩] ∧
      o.Expressible ∧ ∃ o', Output.ofJson? o.toJson = some o' ∧ o'.equals o = true := by
  have finite : (Value.list [.ofInt (2 ^ 63), .map [("k", .null)]]).isFinite = true := by
    decide +kernel
  have expressible : (Output.mk "failed" [("code", .ofInt (-1))] [⟨"pexec_1", "sexec_1", "p", "s",
      ⟨"err_1", "refused", "internal", "Internal", 500⟩⟩]).Expressible :=
    ⟨by decide +kernel, by decide⟩
  exact ⟨⟨finite, (json_reads_back.1 _ finite).1⟩,
    _, rfl, rfl, expressible, json_reads_back.2.1 _ expressible⟩

end PipelineResolution
